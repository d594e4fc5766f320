import ProgramStream.Proofs.Dump.Files
import ProgramStream.Proofs.Dump.Reading
/-!
# A dump — from its input to its files

A run whose input can be opened and whose directory is there reads, decodes
and writes (`run_runReading`). Any two readers of the same file make the same
run of it, whatever the file system does (`readers_agree`), if there is memory
for the pieces of both. What there is memory for is up to the machine, and there
are sizes that no machine has it for (`run_unaddressable`). What a run leaves in
a directory without files is said by `holds_runs`.
-/

namespace ProgramStream

namespace Dump

open Session

variable {memory : Memory} {settings settings' : Settings}
  {read read' : Nat → List UInt8 → List (List UInt8)} {size size' : Nat} {t t' : FileTree}
  {path : String} {bytes : List UInt8}

/-! ## Memory for pieces -/

/-- A piece can be had exactly if memory can hold it: what can be held has
addresses. -/
theorem chunkFault?_eq_none_iff : chunkFault? memory size = none ↔ memory.canHold size = true := by
  unfold chunkFault?
  split
  case isTrue hlarge =>
    have hnot : ¬memory.canHold size = true := fun hfits =>
      absurd (memory.le_addressLimit size hfits) (Nat.not_le.2 hlarge)
    simp [hnot]
  case isFalse => split <;> simp [*]

/-- **What has no addresses no memory holds.** -/
theorem chunkFault?_of_lt (h : addressLimit < size) :
    chunkFault? memory size = some (.unaddressable size) :=
  if_pos h

/-! ## How a file is read -/

/-- **A reader of pieces of a size**: there is memory for them, and they are
delivered of every file. -/
structure IsReader (memory : Memory) (size : Nat)
    (read : Nat → List UInt8 → List (List UInt8)) : Prop where
  canHold : memory.canHold size = true
  isReading : ∀ bytes, IsReading size bytes (read size bytes)

theorem isReader_inPieces (hpos : size ≠ 0) (hfits : memory.canHold size = true) :
    IsReader memory size inPieces :=
  ⟨hfits, isReading_inPieces hpos⟩

/-- **A run** of which the input is opened and the directory found. -/
theorem run_runReading (read : Nat → List UInt8 → List (List UInt8))
    (hinput : settings.input = some path)
    (hopen : t.openFile path = .ok (.content bytes))
    (hensure : (Storage.ensureDirectory (m := TreeM) settings.outputOrDefault.path).run t =
      (.ok (), t'))
    (hfits : memory.canHold settings.demuxOrDefault.chunkSize = true) :
    let demux := settings.demuxOrDefault
    let output := settings.outputOrDefault
    let d := decode demux (read demux.chunkSize bytes)
    let w := ((files output d.2.records.toList).foldlM (write (m := TreeM) output.path) {}).run t'
    (runReading (m := TreeM) memory read settings).run t =
      (.ok ⟨d.1.stats, w.1, d.2.warnings⟩, w.2) := by
  intro demux output d w
  unfold runReading
  rw [hinput]
  refine (FileTree.run_bind_of_run (FileTree.run_openFile t path)).trans ?_
  rw [hopen]
  refine (FileTree.run_bind_of_run hensure).trans ?_
  rw [chunkFault?_eq_none_iff.2 hfits]
  exact FileTree.run_bind_of_run (u := w.2) rfl

/-- **A run without memory** for its pieces decodes nothing. -/
theorem run_runReading_of_chunkFault (read : Nat → List UInt8 → List (List UInt8))
    {fault : Fault} (hinput : settings.input = some path)
    (hopen : t.openFile path = .ok (.content bytes))
    (hensure : (Storage.ensureDirectory (m := TreeM) settings.outputOrDefault.path).run t =
      (.ok (), t'))
    (hfault : chunkFault? memory settings.demuxOrDefault.chunkSize = some fault) :
    ((runReading (m := TreeM) memory read settings).run t).1 = .error fault := by
  unfold runReading
  rw [hinput]
  refine (congrArg Prod.fst
    (FileTree.run_bind_of_run (FileTree.run_openFile t path))).trans ?_
  rw [hopen]
  refine (congrArg Prod.fst (FileTree.run_bind_of_run hensure)).trans ?_
  rw [hfault]
  rfl

/-- What a reader delivers is decoded like the whole file. -/
theorem IsReader.decode_eq (h : IsReader memory size read) (h' : IsReader memory size' read')
    {demux demux' : DemuxSettings} (hlimit : demux'.maxUnits = demux.maxUnits)
    (bytes : List UInt8) :
    decode demux' (read' size' bytes) = decode demux (read size bytes) := by
  rw [Dump.decode_eq, Dump.decode_eq, (h.isReading bytes).flatten_eq,
    (h'.isReading bytes).flatten_eq, hlimit]

/-- **How a file is read does not show.** Readers of two kinds, of pieces of
any two sizes that there is memory for, make the same run under the same
settings, whatever the file system does. The run is that of the loop that ends
at the limit or with the file, and its counts tell where the bytes of the file
are. -/
theorem readers_agree (hread : IsReader memory settings.demuxOrDefault.chunkSize read)
    (hread' : IsReader memory settings'.demuxOrDefault.chunkSize read')
    (hinput : settings'.input = settings.input)
    (houtput : settings'.outputOrDefault = settings.outputOrDefault)
    (hlimit : settings'.demuxOrDefault.maxUnits = settings.demuxOrDefault.maxUnits) :
    (∀ (m : Type → Type) [Monad m] [Storage m],
        runReading (m := m) memory read' settings' = runReading memory read settings) ∧
      ∀ {t t' : FileTree} {path : String} {bytes : List UInt8}, settings.input = some path →
        t.openFile path = .ok (.content bytes) →
        (Storage.ensureDirectory (m := TreeM) settings.outputOrDefault.path).run t =
          (.ok (), t') →
        let demux := settings.demuxOrDefault
        let output := settings.outputOrDefault
        let d := readFrom (fresh demux.maxUnits) {} (read demux.chunkSize bytes)
        let w := ((files output d.2.records.toList).foldlM
          (write (m := TreeM) output.path) {}).run t'
        (runReading (m := TreeM) memory read settings).run t =
            (.ok ⟨d.1.stats, w.1, d.2.warnings⟩, w.2) ∧
          IsAccounted demux.maxUnits bytes d.1.stats := by
  constructor
  · intro m _ _
    unfold runReading
    simp only [hinput, houtput, chunkFault?_eq_none_iff.2 hread.canHold,
      chunkFault?_eq_none_iff.2 hread'.canHold, hread.decode_eq hread' hlimit]
  · intro t t' path bytes hpath hopen hensure
    obtain ⟨hstats, hlog⟩ := decode_eq_readFrom settings.demuxOrDefault
      (read settings.demuxOrDefault.chunkSize bytes)
    simp only [← hstats, ← hlog]
    exact ⟨run_runReading read hpath hopen hensure hread.canHold,
      isAccounted_decode (hread.isReading bytes).flatten_eq⟩

/-- A pack header, a packet and a stream end. -/
def sampleBytes : List UInt8 :=
  [0x00, 0x00, 0x01, 0xBA, 0x44, 0x00, 0xDD, 0xD4, 0x04, 0x01, 0x00, 0x5F, 0x6B, 0xF8,
    0x00, 0x00, 0x01, 0xE0, 0x00, 0x04, 0x80, 0x00, 0x00, 0x65,
    0x00, 0x00, 0x01, 0xB9]

/-- A tree with these in a file and a directory in which the file of the pack
header cannot be written, for a directory stands there. -/
def sampleTree : FileTree :=
  ((FileTree.empty.put FileTree.working "in.ps" (.file sampleBytes)).putDirectory
    FileTree.working "out").putDirectory 3 "0000000_ps0_psHeader_scr.data"

/-- An output that saves all there is into that directory. -/
def sampleOutput : OutputSettings := ⟨"out", true, true, true⟩

/-- Settings for that file, up to the packet. -/
def sampleSettings (chunkSize : Nat) : Settings :=
  { input := some "in.ps", output := some sampleOutput, demux := some ⟨chunkSize, 2⟩,
    logLevel := none }

theorem input_sampleSettings (chunkSize : Nat) : (sampleSettings chunkSize).input = some "in.ps" :=
  rfl

theorem openFile_sampleTree : sampleTree.openFile "in.ps" = .ok (.content sampleBytes) := by
  have hlocate : sampleTree.locate "in.ps" = .ok (.entry FileTree.working "in.ps") := by
    decide +kernel
  have hfind : sampleTree.find? FileTree.working "in.ps" = some (.file sampleBytes) := by
    decide +kernel
  rw [FileTree.openFile, hlocate]
  simp only [bind, Except.bind, hfind]
  rfl

theorem isDirectoryAt_sampleTree : sampleTree.IsDirectoryAt sampleOutput.path 3 :=
  ⟨by decide +kernel, .inr (by decide +kernel)⟩

theorem ensureDirectory_sampleTree (chunkSize : Nat) :
    (Storage.ensureDirectory (m := TreeM) (sampleSettings chunkSize).outputOrDefault.path).run
      sampleTree = (.ok (), sampleTree) :=
  FileTree.ensureDirectory_of_isDirectoryAt isDirectoryAt_sampleTree

/-- Bytes one by one, whatever the size. -/
def singly (_ : Nat) (bytes : List UInt8) : List (List UInt8) := bytes.map fun b => [b]

theorem isReader_singly (hpos : size ≠ 0) (hfits : memory.canHold size = true) :
    IsReader memory size singly where
  canHold := hfits
  isReading bytes :=
    { ne_nil := by simp [singly]
      length_le := by simp [singly]; omega
      flatten_eq := by rw [singly, ← List.flatMap_def, List.flatMap_singleton'] }

/-- Two readers of the sample. -/
theorem readers_sampleTree :
    IsReader .common 4096 inPieces ∧ IsReader .common 7 singly ∧
      (∀ (m : Type → Type) [Monad m] [Storage m],
        runReading (m := m) .common singly (sampleSettings 7) =
          runReading .common inPieces (sampleSettings 4096)) ∧
      ∃ summary u, (runReading (m := TreeM) .common inPieces (sampleSettings 4096)).run sampleTree =
          (.ok summary, u) ∧
        IsAccounted 2 sampleBytes summary.stats := by
  have hread : IsReader .common (sampleSettings 4096).demuxOrDefault.chunkSize inPieces :=
    isReader_inPieces (by decide) (by decide)
  have hread' : IsReader .common (sampleSettings 7).demuxOrDefault.chunkSize singly :=
    isReader_singly (by decide) (by decide)
  obtain ⟨hsame, hruns⟩ := readers_agree hread hread' rfl rfl rfl
  obtain ⟨hrun, hwhere⟩ :=
    hruns (input_sampleSettings 4096) openFile_sampleTree (ensureDirectory_sampleTree 4096)
  exact ⟨hread, hread', hsame, _, _, hrun, hwhere⟩

/-- **The size of the pieces shows** if no machine has memory for them: settings
that are in order differ in nothing else, and wherever pieces of the one size can
be held the one run ends well and the other does not. -/
theorem run_unaddressable :
    (sampleSettings 4096).check = .ok () ∧
      (sampleSettings 0x8000000000000000).check = .ok () ∧
      IsReading 4096 sampleBytes (inPieces 4096 sampleBytes) ∧
      IsReading 0x8000000000000000 sampleBytes (inPieces 0x8000000000000000 sampleBytes) ∧
      Memory.common.canHold 4096 = true ∧
      ∀ memory : Memory, memory.canHold 4096 = true →
        (∃ summary,
          ((run (m := TreeM) (sampleSettings 4096) memory).run sampleTree).1 = .ok summary) ∧
        ((run (m := TreeM) (sampleSettings 0x8000000000000000) memory).run sampleTree).1 =
          .error (.unaddressable 0x8000000000000000) := by
  refine ⟨by decide, by decide, isReading_inPieces (by decide) _, isReading_inPieces (by decide) _,
    by decide, ?_⟩
  intro memory hfits
  have hrun := run_runReading inPieces (input_sampleSettings 4096) openFile_sampleTree
    (ensureDirectory_sampleTree 4096) hfits
  have hlarge : addressLimit < 0x8000000000000000 := by decide
  exact ⟨⟨_, congrArg Prod.fst hrun⟩,
    run_runReading_of_chunkFault inPieces (input_sampleSettings 0x8000000000000000)
      openFile_sampleTree (ensureDirectory_sampleTree 0x8000000000000000)
      (chunkFault?_of_lt hlarge)⟩

/-! ## What a run leaves -/

/-- **What runs leave in a directory without files**: one file for each unit
that is kept, as far as it can be written. That is so for all calls of a
session, and for a run whatever its input holds and however it is read; what
was decoded does not depend on what could be written. -/
theorem holds_runs {output : OutputSettings} {n : Nat} (hdir : t.IsDirectoryAt output.path n)
    (hempty : t.filesIn n = []) :
    (∀ {ε : Type} (calls : List (Call ε)),
        let d := performAll calls
        let w := ((files output d.2.records.toList).foldlM
          (write (m := TreeM) output.path) {}).run t
        Holds output d.1 d.2.records.toList t w.2 n w.1) ∧
      ∀ {memory : Memory} {settings : Settings} {read : Nat → List UInt8 → List (List UInt8)}
        {path : String} {bytes : List UInt8}, settings.outputOrDefault = output →
        settings.input = some path →
        t.openFile path = .ok (.content bytes) →
        memory.canHold settings.demuxOrDefault.chunkSize = true →
        let demux := settings.demuxOrDefault
        let d := decode demux (read demux.chunkSize bytes)
        ∃ tally u, (runReading (m := TreeM) memory read settings).run t =
            (.ok ⟨d.1.stats, tally, d.2.warnings⟩, u) ∧
          Holds output d.1 d.2.records.toList t u n tally := by
  have hcalls {ε : Type} (calls : List (Call ε)) :
      let d := performAll calls
      let w := ((files output d.2.records.toList).foldlM
        (write (m := TreeM) output.path) {}).run t
      Holds output d.1 d.2.records.toList t w.2 n w.1 := by
    obtain ⟨moves, hreaches⟩ := reaches_performAll calls
    exact holds_of_isNumbered hreaches.isNumbered hdir hempty
  refine ⟨hcalls, ?_⟩
  intro memory settings read path bytes houtput hpath hopen hfits demux d
  have hensure := FileTree.ensureDirectory_of_isDirectoryAt hdir
  rw [← houtput] at hensure
  have hrun := run_runReading read hpath hopen hensure hfits
  rw [houtput] at hrun
  obtain ⟨calls, hdecode⟩ := exists_performAll_eq_decode demux (read demux.chunkSize bytes)
  have hholds := hcalls calls
  rw [hdecode] at hholds
  exact ⟨_, _, hrun, hholds⟩

/-- The sample is dumped into its directory. -/
theorem holds_sampleTree :
    sampleTree.IsDirectoryAt sampleOutput.path 3 ∧ sampleTree.filesIn 3 = [] ∧
      let d := decode ⟨4096, 2⟩ (inPieces 4096 sampleBytes)
      ∃ tally u, (run (m := TreeM) (sampleSettings 4096)).run sampleTree =
          (.ok ⟨d.1.stats, tally, d.2.warnings⟩, u) ∧
        Holds sampleOutput d.1 d.2.records.toList sampleTree u 3 tally := by
  have hempty : sampleTree.filesIn 3 = [] := by decide +kernel
  have houtput : (sampleSettings 4096).outputOrDefault = sampleOutput := rfl
  obtain ⟨-, hruns⟩ := holds_runs isDirectoryAt_sampleTree hempty
  exact ⟨isDirectoryAt_sampleTree, hempty,
    hruns houtput (input_sampleSettings 4096) openFile_sampleTree (by decide)⟩

end Dump

end ProgramStream

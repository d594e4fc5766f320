import ProgramStream.Dump.Run
import ProgramStream.Proofs.Dump.FileName
import ProgramStream.Proofs.Session.Numbering
/-!
# A dump — one file for each unit that is kept

Which units a dump keeps is a matter of their kind (`isKept`), and what it
keeps of them is said by `Keeps`. A run over files of different names writes
each of them that can be written and counts the others
(`run_foldlM_write`), and the names of a dump are different because the
numbers of its units are. `Holds` is what is then true of the directory and
of the counts.
-/

namespace ProgramStream

namespace Dump

/-! ## What is kept -/

/-- The kinds of units that have files. -/
def isKept (output : OutputSettings) : StreamUnit.Kind → Bool
  | .audio | .video => output.savePayload
  | .pack | .system | .map => output.saveDiagnostics
  | .streamEnd | .other => false

/-- **What a file holds**: the payload of a packet, or the diagnostic text of
another unit. -/
inductive Keeps (output : OutputSettings) : StreamUnit → List UInt8 → Prop
  | payload (p : Packet) (codec : Codec) (h : output.savePayload = true) :
      Keeps output (.packet p codec) p.payload
  | diagnostic {u : StreamUnit} {text : String} (h : output.saveDiagnostics = true)
      (hu : Diagnostic.text? u = some text) : Keeps output u text.toUTF8.toList

variable {output : OutputSettings} {r r' : Record} {name : String} {bytes : List UInt8}

theorem content?_eq_some_iff {u : StreamUnit} :
    content? output u = some bytes ↔ Keeps output u bytes := by
  unfold content?
  split
  · rename_i p codec
    constructor
    · intro h
      obtain ⟨hsave, rfl⟩ : output.savePayload = true ∧ p.payload = bytes := by simpa using h
      exact .payload p codec hsave
    · intro h
      cases h with
      | payload _ _ hsave => rw [if_pos hsave]
      | diagnostic _ hu => cases hu
  · rename_i hpacket
    constructor
    · intro h
      split at h
      · obtain ⟨text, hu, rfl⟩ := Option.map_eq_some_iff.1 h
        exact .diagnostic ‹_› hu
      · cases h
    · intro h
      cases h with
      | payload p codec => exact absurd rfl (hpacket p codec)
      | diagnostic hsave hu => rw [if_pos hsave, hu]; rfl

theorem file?_eq_some_iff :
    file? output r = some (name, bytes) ↔
      fileName? r = some name ∧ Keeps output r.content bytes := by
  rw [← content?_eq_some_iff]
  unfold file?
  cases fileName? r with
  | none => simp
  | some name' => cases content? output r.content <;> simp

/-- **A unit of a kind that is kept has a file**, and no other. -/
theorem isSome_file? (output : OutputSettings) (r : Record) :
    (file? output r).isSome = isKept output r.content.kind := by
  obtain ⟨index, packIndex, content⟩ := r
  unfold file? fileName?
  cases content with
  | packet p codec =>
    have hkind : isKept output (StreamUnit.packet p codec).kind = output.savePayload := by
      simp only [StreamUnit.kind]
      split <;> rfl
    rw [hkind]
    cases hsave : output.savePayload <;> simp [unitName?, content?, hsave]
  | streamEnd => rfl
  | other id length => rfl
  | _ =>
    cases hsave : output.saveDiagnostics <;>
      simp [unitName?, content?, hsave, StreamUnit.kind, isKept, Diagnostic.text?,
        Diagnostic.showUnit?]

/-! ## Writing files -/

section Writing

variable {t : FileTree} {path : String} {n : Nat}

variable {file : String × List UInt8}

/-- **A file that can be written** is put into the directory, and counted. -/
theorem run_write_of_none (h : t.IsDirectoryAt path n) (hname : IsName file.1)
    (hfault : t.writeFault? path n file.1 = none) (tally : Tally) :
    (write (m := TreeM) path tally file).run t =
      (⟨tally.files + 1, tally.bytes + file.2.length, tally.failures⟩,
        t.put n file.1 (.file file.2)) := by
  simp only [write, Storage.writeFile, TreeM.change, StateT.run_bind, StateT.run_modifyGet,
    FileTree.writeFile_join h hname, hfault]
  rfl

/-- **One that cannot be written** changes nothing, and is counted as such. -/
theorem run_write_of_some (h : t.IsDirectoryAt path n) (hname : IsName file.1)
    {fault : StorageFault} (hfault : t.writeFault? path n file.1 = some fault) (tally : Tally) :
    (write (m := TreeM) path tally file).run t =
      (⟨tally.files, tally.bytes, tally.failures + 1⟩, t) := by
  simp only [write, Storage.writeFile, TreeM.change, StateT.run_bind, StateT.run_modifyGet,
    FileTree.writeFile_join h hname, hfault]
  rfl

/-- Files are written one after the other. -/
theorem run_foldlM_write_cons (t : FileTree) (path : String) (tally : Tally)
    (file : String × List UInt8) (files : List (String × List UInt8)) :
    ((file :: files).foldlM (write (m := TreeM) path) tally).run t =
      (fun first => (files.foldlM (write (m := TreeM) path) first.1).run first.2)
        ((write (m := TreeM) path tally file).run t) := rfl

/-- The files of a list that can be written in a directory. -/
def writable (t : FileTree) (path : String) (n : Nat) (files : List (String × List UInt8)) :
    List (String × List UInt8) :=
  files.filter fun file => (t.writeFault? path n file.1).isNone

/-- **A run over files** writes those that can be written, and counts the
others. -/
theorem run_foldlM_write (h : t.IsDirectoryAt path n) {files : List (String × List UInt8)}
    (hnames : ∀ file ∈ files, IsName file.1) (tally : Tally) :
    let written := writable t path n files
    let r := (files.foldlM (write (m := TreeM) path) tally).run t
    r.1.files = tally.files + written.length ∧
      r.1.bytes = tally.bytes + (written.map (·.2.length)).sum ∧
      r.1.failures + written.length = tally.failures + files.length ∧
      r.2 = t.putFiles n written ∧ FileTree.SameDirectories t r.2 := by
  induction files generalizing t tally with
  | nil => exact ⟨rfl, rfl, rfl, rfl, .refl t⟩
  | cons file files ih =>
    obtain ⟨hname, hnames⟩ := List.forall_mem_cons.1 hnames
    intro written r
    have hr : r = _ := run_foldlM_write_cons t path tally file files
    cases hfault : t.writeFault? path n file.1 with
    | none =>
      -- what can be written afterwards is what could be written before
      have hsame := FileTree.SameDirectories.put_file h.lt_size
        (FileTree.find?_ne_directory hname hfault) file.2
      have hrest : writable (t.put n file.1 (.file file.2)) path n files =
          writable t path n files := by
        simp only [writable, hsame.writeFault?_eq]
      have hwritten : written = file :: writable t path n files := by
        simp [written, writable, hfault]
      obtain ⟨hfiles, hbytes, hfailures, htree, hsame'⟩ := ih (hsame.isDirectoryAt h) hnames
        ⟨tally.files + 1, tally.bytes + file.2.length, tally.failures⟩
      rw [run_write_of_none h hname hfault] at hr
      rw [hrest] at hfiles hbytes hfailures htree
      rw [hr, hwritten, List.length_cons, List.length_cons, List.map_cons, List.sum_cons]
      refine ⟨?_, ?_, ?_, htree, hsame.trans hsame'⟩
      · exact hfiles.trans (by simp only; omega)
      · exact hbytes.trans (by simp only; omega)
      · simp only at hfailures ⊢
        omega
    | some fault =>
      have hwritten : written = writable t path n files := by simp [written, writable, hfault]
      obtain ⟨hfiles, hbytes, hfailures, htree, hsame⟩ :=
        ih h hnames ⟨tally.files, tally.bytes, tally.failures + 1⟩
      rw [run_write_of_some h hname hfault] at hr
      rw [hr, hwritten, List.length_cons]
      refine ⟨hfiles, hbytes, ?_, htree, hsame⟩
      exact hfailures.trans (by simp only; omega)

end Writing

/-! ## The files of a dump -/

theorem mem_files_iff {records : List Record} :
    (name, bytes) ∈ files output records ↔
      output.saveTables = true ∧ (name, bytes) ∈ tableFiles ∨
        ∃ r ∈ records, fileName? r = some name ∧ Keeps output r.content bytes := by
  unfold files
  rw [List.mem_append, List.mem_filterMap]
  refine or_congr ?_ (exists_congr fun r => and_congr_right fun _ => file?_eq_some_iff)
  cases output.saveTables <;> simp

/-- Every file has a name that stands for what is in a directory. -/
theorem isName_of_mem_files {records : List Record} {file : String × List UInt8}
    (h : file ∈ files output records) : IsName file.1 := by
  rcases mem_files_iff.1 h with ⟨-, htable⟩ | ⟨r, -, hname, -⟩
  · rcases List.mem_cons.1 htable with hname | hrest
    · rw [show file.1 = associationName from congrArg Prod.fst hname]
      exact ⟨by decide, by decide, by decide, by decide⟩
    · rw [show file.1 = programMapName from congrArg Prod.fst (List.mem_singleton.1 hrest)]
      exact ⟨by decide, by decide, by decide, by decide⟩
  · exact isName_of_fileName? hname

/-- **No two files of a dump have one name.** -/
theorem nodup_names (output : OutputSettings) {records : List Record}
    (hindex : records.Pairwise (·.index < ·.index)) :
    ((files output records).map Prod.fst).Nodup := by
  unfold files
  rw [List.map_append, List.nodup_append]
  refine ⟨?_, ?_, ?_⟩
  · cases output.saveTables
    · exact List.nodup_nil
    · change [associationName, programMapName].Nodup
      decide
  · refine List.pairwise_map.2 (List.Pairwise.filterMap _ ?_ hindex)
    rintro r r' hlt ⟨name, bytes⟩ hfile ⟨name', bytes'⟩ hfile' rfl
    have hsame := index_eq_of_fileName? (file?_eq_some_iff.1 hfile).1 (file?_eq_some_iff.1 hfile').1
    omega
  · intro name htable name' hrecord heq
    obtain ⟨file, hfile, rfl⟩ := List.mem_map.1 hrecord
    obtain ⟨r, -, hr⟩ := List.mem_filterMap.1 hfile
    obtain ⟨hassociation, hmap⟩ := ne_tableName (file?_eq_some_iff.1 hr).1
    have hname : name ∈ [associationName, programMapName] := by
      cases hsave : output.saveTables with
      | true => rwa [hsave] at htable
      | false => rw [hsave] at htable; cases htable
    rcases List.mem_cons.1 hname with rfl | hname
    · exact hassociation heq.symm
    · exact hmap (heq.symm.trans (List.mem_singleton.1 hname))

/-- The number of units that are kept. -/
def keptUnits (output : OutputSettings) (stats : Stats) : Nat :=
  (if output.savePayload then stats.audioPackets + stats.videoPackets else 0) +
    if output.saveDiagnostics then stats.packHeaders + stats.systemHeaders + stats.streamMaps else 0

/-- The units that are kept are counted by their kinds. -/
theorem countP_isKept (output : OutputSettings) (records : List Record) :
    records.countP (isKept output ·.content.kind) =
      (if output.savePayload then countKind .audio records + countKind .video records else 0) +
        if output.saveDiagnostics then
          countKind .pack records + countKind .system records + countKind .map records
        else 0 := by
  induction records with
  | nil => simp [countKind]
  | cons r records ih =>
    rw [List.countP_cons, ih]
    simp only [countKind, List.countP_cons]
    cases r.content.kind <;> cases hp : output.savePayload <;>
      cases hd : output.saveDiagnostics <;> simp [isKept, hp, hd] <;> omega

theorem countP_isKept_eq {records : List Record} {s : Session} (h : Session.IsNumbered records s) :
    records.countP (isKept output ·.content.kind) = keptUnits output s.stats := by
  simp only [countP_isKept, ← h.units, Stats.units, keptUnits]

theorem length_files (output : OutputSettings) (records : List Record) :
    (files output records).length =
      (if output.saveTables then 2 else 0) + records.countP (isKept output ·.content.kind) := by
  have hfiltered : (records.filterMap (file? output)).length =
      records.countP (isKept output ·.content.kind) := by
    rw [List.length_filterMap_eq_countP]
    simp only [isSome_file?]
  rw [files, List.length_append, hfiltered]
  cases output.saveTables <;> rfl

/-- **What a dump leaves in a directory**, in which there was no file before:
`t` is the tree before and `u` after it. -/
structure Holds (output : OutputSettings) (s : Session) (records : List Record) (t u : FileTree)
    (n : Nat) (tally : Tally) : Prop where
  /-- units have different names -/
  distinct : records.Pairwise fun r r' =>
    ∀ name, fileName? r = some name → fileName? r' ≠ some name
  /-- and none has that of a table -/
  ne_tableName : ∀ r ∈ records, ∀ name, fileName? r = some name →
    name ≠ associationName ∧ name ≠ programMapName
  /-- the units that have a file are those of the kinds kept -/
  isKept_iff : ∀ r ∈ records, isKept output r.content.kind = true ↔
    ∃ name bytes, fileName? r = some name ∧ Keeps output r.content bytes
  /-- the files are the tables and those of the units kept, if they can be written -/
  mem_iff : ∀ name bytes, (name, bytes) ∈ u.filesIn n ↔
    t.IsWritable output.path name ∧
      (output.saveTables = true ∧ (name, bytes) ∈ tableFiles ∨
        ∃ r ∈ records, fileName? r = some name ∧ Keeps output r.content bytes)
  /-- there is one file of a name -/
  nodup : ((u.filesIn n).map Prod.fst).Nodup
  /-- nothing else has changed -/
  elsewhere : ∀ directory name, (directory = n → ∀ bytes, (name, bytes) ∉ u.filesIn n) →
    u.find? directory name = t.find? directory name
  sameDirectories : FileTree.SameDirectories t u
  /-- the files are counted, and so are their bytes and those that could not be written -/
  files_eq : tally.files = (u.filesIn n).length
  bytes_eq : tally.bytes = ((u.filesIn n).map (·.2.length)).sum
  total_eq : tally.files + tally.failures =
    (if output.saveTables then 2 else 0) + records.countP (isKept output ·.content.kind)
  /-- the units kept are those that the session has counted -/
  kept_eq : records.countP (isKept output ·.content.kind) = keptUnits output s.stats

/-- **Writing the files of numbered records** leaves just them. -/
theorem holds_of_isNumbered {t : FileTree} {n : Nat} {s : Session} {records : List Record}
    (h : Session.IsNumbered records s) (hdir : t.IsDirectoryAt output.path n)
    (hempty : t.filesIn n = []) :
    let r := ((files output records).foldlM (write (m := TreeM) output.path) {}).run t
    Holds output s records t r.2 n r.1 := by
  intro r
  have hnodup := nodup_names output h.index_pairwise
  have hnames : ∀ file ∈ files output records, IsName file.1 := fun _ => isName_of_mem_files
  obtain ⟨hfiles, hbytes, hfailures, htree, hsame⟩ := run_foldlM_write hdir hnames {}
  rw [Nat.zero_add] at hfiles hbytes hfailures
  have hwritten : ((writable t output.path n (files output records)).map Prod.fst).Nodup :=
    hnodup.sublist (List.filter_sublist.map _)
  have hperm : (r.2.filesIn n).Perm (writable t output.path n (files output records)) := by
    rw [htree]
    exact FileTree.filesIn_putFiles hdir.lt_size hempty hwritten
  have helse := (FileTree.find?_putFiles hdir.lt_size hwritten).2
  refine
    { distinct := h.index_pairwise.imp fun hlt name hname hname' =>
        absurd (index_eq_of_fileName? hname hname') (Nat.ne_of_lt hlt)
      ne_tableName := fun r _ name hname => Dump.ne_tableName hname
      isKept_iff := fun r _ => ?_
      mem_iff := fun name bytes => ?_
      nodup := FileTree.nodup_filesIn _ _
      elsewhere := fun directory name hnot => ?_
      sameDirectories := hsame
      files_eq := by rw [hperm.length_eq]; exact hfiles
      bytes_eq := by rw [(hperm.map _).sum_eq]; exact hbytes
      total_eq := ?_
      kept_eq := countP_isKept_eq h }
  · rw [← isSome_file?, Option.isSome_iff_exists]
    simp only [Prod.exists, file?_eq_some_iff]
  · rw [hperm.mem_iff, ← mem_files_iff, writable, List.mem_filter, and_comm]
    refine and_congr_left fun hmem => ?_
    rw [FileTree.isWritable_iff hdir (isName_of_mem_files hmem), Option.isNone_iff_eq_none]
  · rw [htree]
    refine helse directory name fun hd hmem => ?_
    obtain ⟨file, hfile, rfl⟩ := List.mem_map.1 hmem
    exact hnot hd file.2 (hperm.mem_iff.2 hfile)
  · have hfiles : r.1.files = _ := hfiles
    have hfailures : r.1.failures + _ = _ := hfailures
    rw [← length_files]
    omega

end Dump

end ProgramStream

import Mathlib.Data.String.Basic
import ProgramStream.Storage.Tree
/-!
# Trees of files — writing into a directory

A name in a directory can be written or not, and whether it can has nothing to
do with the files there are: it depends on the lengths of the name and of its
path, and on the directories (`writeFile_join`). Writing a file leaves the
directories as they are (`SameDirectories`), so files are written one after
the other as if each of them were the only one.
-/

namespace ProgramStream

/-! ## Names -/

/-- Text that ends no name: it has neither slashes nor zero characters. -/
def IsNameText (text : String) : Prop := ∀ c ∈ text.toList, c ≠ '/' ∧ c ≠ Char.ofNat 0

instance : DecidablePred IsNameText := fun text =>
  List.decidableBAll (fun c => c ≠ '/' ∧ c ≠ Char.ofNat 0) text.toList

/-- A name that stands for what is in a directory. -/
structure IsName (name : String) : Prop where
  isNameText : IsNameText name
  ne_empty : name ≠ ""
  ne_dot : name ≠ "."
  ne_dots : name ≠ ".."

namespace FileTree

variable {t u : FileTree} {path name name' : String} {directory directory' n : Nat} {node : Node}
  {bytes : List UInt8}

/-! ## Look-ups -/

/-- **What is put at a name is found there**, and nothing else changes. -/
theorem find?_put (h : directory < t.directories.size) :
    (t.put directory name node).find? directory' name' =
      if directory' = directory ∧ name' = name then some node else t.find? directory' name' := by
  unfold find? put
  rw [Array.getElem?_modify]
  by_cases hd : directory = directory'
  · subst hd
    rw [if_pos rfl, Array.getElem?_eq_getElem h]
    simp only [Option.map_some, Option.bind_some, Std.TreeMap.getElem?_insert,
      Std.LawfulEqCmp.compare_eq_iff_eq, true_and, eq_comm (a := name)]
  · rw [if_neg hd, if_neg fun hboth => hd hboth.1.symm]

@[simp] theorem size_put (t : FileTree) (directory : Nat) (name : String) (node : Node) :
    (t.put directory name node).directories.size = t.directories.size :=
  Array.size_modify

@[simp] theorem above_put (t : FileTree) (directory directory' : Nat) (name : String)
    (node : Node) : (t.put directory name node).above directory' = t.above directory' := by
  unfold above put
  rw [Array.getElem?_modify]
  split
  · cases t.directories[directory']? <;> rfl
  · rfl

/-- The files of a directory are what is found there. -/
theorem mem_filesIn :
    (name, bytes) ∈ t.filesIn directory ↔ t.find? directory name = some (.file bytes) := by
  unfold filesIn find?
  cases t.directories[directory]? with
  | none => simp
  | some d =>
    simp only [Option.map_some, Option.getD_some, List.mem_filterMap, Option.bind_some]
    constructor
    · rintro ⟨⟨name', node⟩, hmem, heq⟩
      cases node with
      | file bytes' =>
        obtain ⟨rfl, rfl⟩ : name' = name ∧ bytes' = bytes := by simpa using heq
        exact Std.TreeMap.mem_toList_iff_getElem?_eq_some.1 hmem
      | directory inner => simp at heq
    · intro hfind
      exact ⟨(name, .file bytes), Std.TreeMap.mem_toList_iff_getElem?_eq_some.2 hfind, rfl⟩

/-- There is one file of a name. -/
theorem nodup_filesIn (t : FileTree) (directory : Nat) :
    ((t.filesIn directory).map Prod.fst).Nodup := by
  unfold filesIn
  cases t.directories[directory]? with
  | none => exact List.nodup_nil
  | some d =>
    refine List.pairwise_map.2 (List.Pairwise.filterMap _ ?_ d.entries.distinct_keys_toList)
    rintro ⟨name, node⟩ ⟨name', node'⟩ hne file hfile file' hfile'
    have hname : file.1 = name := by
      cases node with
      | file bytes => cases hfile; rfl
      | directory inner => cases hfile
    have hname' : file'.1 = name' := by
      cases node' with
      | file bytes => cases hfile'; rfl
      | directory inner => cases hfile'
    rw [hname, hname']
    exact fun heq => hne (Std.LawfulEqCmp.compare_eq_iff_eq.2 heq)

/-! ## Directories -/

/-- Two trees have the same directories; which files they have is left open. -/
structure SameDirectories (t u : FileTree) : Prop where
  size_eq : u.directories.size = t.directories.size
  above_eq : ∀ directory, u.above directory = t.above directory
  find?_iff : ∀ directory name inner,
    u.find? directory name = some (.directory inner) ↔
      t.find? directory name = some (.directory inner)

namespace SameDirectories

theorem refl (t : FileTree) : SameDirectories t t := ⟨rfl, fun _ => rfl, fun _ _ _ => .rfl⟩

theorem trans {v : FileTree} (h : SameDirectories t u) (h' : SameDirectories u v) :
    SameDirectories t v where
  size_eq := h'.size_eq.trans h.size_eq
  above_eq directory := (h'.above_eq directory).trans (h.above_eq directory)
  find?_iff directory name inner :=
    (h'.find?_iff directory name inner).trans (h.find?_iff directory name inner)

/-- **A file that is put where no directory stands leaves the directories as
they are.** -/
theorem put_file (h : directory < t.directories.size)
    (hnot : ∀ inner, t.find? directory name ≠ some (.directory inner)) (bytes : List UInt8) :
    SameDirectories t (t.put directory name (.file bytes)) where
  size_eq := size_put ..
  above_eq _ := above_put ..
  find?_iff directory' name' inner := by
    rw [find?_put h]
    split
    · rename_i hsame
      rw [hsame.1, hsame.2]
      exact ⟨nofun, fun hfind => absurd hfind (hnot inner)⟩
    · exact .rfl

/-- A name followed from a directory leads to the same place. -/
theorem step_eq (h : SameDirectories t u) (directory : Nat) (name : String) :
    u.step (.directory directory) name = t.step (.directory directory) name := by
  unfold step
  simp only [h.above_eq]
  split
  · rfl
  split
  · rfl
  split
  · rfl
  -- what stands at the name matters only if it is a directory
  cases ht : t.find? directory name with
  | some node =>
    cases node with
    | directory inner => rw [(h.find?_iff directory name inner).2 ht]
    | file bytes =>
      cases hu : u.find? directory name with
      | some node =>
        cases node with
        | directory inner => rw [(h.find?_iff directory name inner).1 hu] at ht; cases ht
        | file bytes' => rfl
      | none => rfl
  | none =>
    cases hu : u.find? directory name with
    | some node =>
      cases node with
      | directory inner => rw [(h.find?_iff directory name inner).1 hu] at ht; cases ht
      | file bytes' => rfl
    | none => rfl

end SameDirectories

/-! ## Following names -/

theorem follow_append_singleton (directory : Nat) (names : List String) (name : String) :
    t.follow directory (names ++ [name]) = t.follow directory names >>= (t.step · name) := by
  simp [follow, List.foldlM_append]

/-- Names that lead to a directory lead through directories. -/
theorem follow_cons_eq_directory_iff {names : List String} :
    t.follow directory (name :: names) = .ok (.directory n) ↔
      ∃ inner, t.step (.directory directory) name = .ok (.directory inner) ∧
        t.follow inner names = .ok (.directory n) := by
  have hcons : t.follow directory (name :: names) =
      t.step (.directory directory) name >>= (names.foldlM t.step ·) := List.foldlM_cons ..
  rw [hcons]
  cases hstep : t.step (.directory directory) name with
  | error fault => simp [bind, Except.bind]
  | ok spot =>
    cases spot with
    | directory inner => simp [bind, Except.bind, follow]
    | entry directory' name' =>
      -- from where no directory stands, nothing can be followed
      cases names with
      | nil => simp [bind, Except.bind, pure, Except.pure]
      | cons name'' names => simp [bind, Except.bind, step]

/-- Where names lead to a directory, they do so whatever files there are. -/
theorem SameDirectories.follow_eq (h : SameDirectories t u) {names : List String}
    (hfollow : t.follow directory names = .ok (.directory n)) :
    u.follow directory names = .ok (.directory n) := by
  induction names generalizing directory with
  | nil => exact hfollow
  | cons name names ih =>
    obtain ⟨inner, hstep, hrest⟩ := follow_cons_eq_directory_iff.1 hfollow
    exact follow_cons_eq_directory_iff.2 ⟨inner, (h.step_eq directory name).trans hstep, ih hrest⟩

/-- What leads to a directory leads there without an empty name at the end. -/
theorem follow_of_append_empty {names : List String}
    (h : t.follow directory (names ++ [""]) = .ok (.directory n)) :
    t.follow directory names = .ok (.directory n) := by
  rw [follow_append_singleton] at h
  cases hfront : t.follow directory names with
  | error fault => rw [hfront] at h; cases h
  | ok spot =>
    rw [hfront] at h
    cases spot with
    | directory inner =>
      have hsame : t.step (.directory inner) "" = .ok (.directory inner) := by
        unfold step
        exact if_pos (.inl rfl)
      exact hsame.symm.trans h
    | entry directory' name' => cases h

/-! ## Paths -/

/-- Where a path starts. -/
def startOf (path : String) : Nat := if path.startsWith '/' then root else working

/-- The names that a path goes through. -/
def namesOf (path : String) : List String := path.splitToList (· = '/')

theorem start_of (hnul : Char.ofNat 0 ∉ path.toList) (hne : path ≠ "") :
    start path =
      if pathLimit < path.utf8ByteSize then .error .nameTooLong
      else .ok (startOf path, namesOf path) := by
  unfold start
  rw [if_neg (by simpa using hnul), if_neg (by simpa using hne)]
  rfl

/-- **A path to a directory**: the empty path is the working directory. -/
structure IsDirectoryAt (t : FileTree) (path : String) (n : Nat) : Prop where
  lt_size : n < t.directories.size
  leads : path = "" ∧ n = working ∨ t.directoryAt? path = some n

theorem directoryAt?_eq_some_iff :
    t.directoryAt? path = some n ↔
      ∃ at', start path = .ok at' ∧ t.follow at'.1 at'.2 = .ok (.directory n) := by
  unfold directoryAt? locate
  cases start path with
  | error fault => simp [bind, Except.bind]
  | ok at' =>
    simp only [bind, Except.bind, Except.ok.injEq, exists_eq_left']
    split
    · rename_i number hfollow
      simp [hfollow]
    · rename_i hnot
      exact ⟨nofun, fun hfollow => absurd hfollow (hnot n)⟩

/-- **Files do not show in where a directory is.** -/
theorem SameDirectories.isDirectoryAt (h : SameDirectories t u) (hdir : t.IsDirectoryAt path n) :
    u.IsDirectoryAt path n where
  lt_size := h.size_eq ▸ hdir.lt_size
  leads := hdir.leads.imp_right fun hat => by
    obtain ⟨at', hstart, hfollow⟩ := directoryAt?_eq_some_iff.1 hat
    exact directoryAt?_eq_some_iff.2 ⟨at', hstart, h.follow_eq hfollow⟩

/-- A path that leads to a directory goes through names. -/
theorem follow_of_directoryAt? (h : t.directoryAt? path = some n) :
    Char.ofNat 0 ∉ path.toList ∧ path ≠ "" ∧
      t.follow (startOf path) (namesOf path) = .ok (.directory n) := by
  obtain ⟨at', hstart, hfollow⟩ := directoryAt?_eq_some_iff.1 h
  unfold start at hstart
  split at hstart
  · cases hstart
  split at hstart
  · cases hstart
  split at hstart
  · cases hstart
  rename_i hnul hempty _
  cases hstart
  exact ⟨by simpa using hnul, by simpa using hempty, hfollow⟩

theorem namesOf_eq (path : String) :
    namesOf path = (path.toList.splitOnP (· = '/')).map String.ofList :=
  String.splitToList_of_valid path _

/-- A name is not cut. -/
theorem namesOf_name (h : IsNameText name) : namesOf name = [name] := by
  rw [namesOf_eq, List.splitOnP_eq_singleton fun c hc => by simpa using (h c hc).1]
  simp

/-- Behind a slash a path goes on. -/
theorem namesOf_append_slash {front : String} (h : path.toList = front.toList ++ '/' :: name.toList)
    (hname : IsNameText name) : namesOf path = namesOf front ++ [name] := by
  rw [namesOf_eq, h, List.splitOnP_append_cons _ _ (by simp), List.map_append, ← namesOf_eq,
    ← namesOf_eq, namesOf_name hname]

/-- **A name in a directory is one name more to follow.** -/
theorem exists_namesOf_join (hne : path ≠ "") (hname : IsNameText name) :
    ∃ front : String, namesOf (Storage.join path name) = namesOf front ++ [name] ∧
      (namesOf path = namesOf front ∨ namesOf path = namesOf front ++ [""]) ∧
      (Storage.join path name).toList.head? = path.toList.head? ∧
      ∀ c ∈ (Storage.join path name).toList, c ∈ path.toList ∨ c = '/' ∨ c ∈ name.toList := by
  obtain ⟨c, cs, hlist⟩ :=
    List.exists_cons_of_ne_nil fun hnil => hne (String.toList_eq_nil_iff.1 hnil)
  unfold Storage.join
  split
  · -- the path has its slash already
    rename_i hslash
    have hend : path.toList.getLast? = some '/' := by
      simpa [hne, String.endsWith_char_eq_getLast?] using hslash
    obtain ⟨front, hfront⟩ := List.getLast?_eq_some_iff.1 hend
    have hpath : path.toList = (String.ofList front).toList ++ '/' :: "".toList := by simp [hfront]
    refine ⟨String.ofList front, namesOf_append_slash (by simp [hfront]) hname,
      .inr (namesOf_append_slash hpath (by decide)), ?_, ?_⟩
    · rw [String.toList_append, hlist]
      rfl
    · intro c hc
      rw [String.toList_append] at hc
      exact (List.mem_append.1 hc).imp_right .inr
  · refine ⟨path, namesOf_append_slash (by simp) hname, .inl rfl, ?_, ?_⟩
    · rw [String.toList_append, String.toList_append, hlist]
      rfl
    · intro c hc
      simpa [or_assoc] using hc

/-- **Where a name in a directory leads** is one step from the directory. -/
theorem locate_join (h : t.IsDirectoryAt path n) (hname : IsName name) :
    t.locate (Storage.join path name) =
      if pathLimit < (Storage.join path name).utf8ByteSize then .error .nameTooLong
      else t.step (.directory n) name := by
  have hnul : Char.ofNat 0 ∉ name.toList := fun hmem => (hname.isNameText _ hmem).2 rfl
  rcases h.leads with ⟨rfl, rfl⟩ | hat
  · have hjoin : Storage.join "" name = name := by simp [Storage.join]
    have hstart : startOf name = working := by
      have hhead : ¬name.startsWith '/' = true := by
        rw [String.startsWith_char_eq_head?]
        intro hhead
        exact (hname.isNameText _ (List.mem_of_mem_head? (beq_iff_eq.1 hhead))).1 rfl
      exact if_neg hhead
    rw [hjoin, locate, start_of hnul hname.ne_empty, hstart, namesOf_name hname.isNameText]
    split
    · rfl
    · change t.follow working [name] = _
      simp [follow]
  · obtain ⟨hnul', hne, hfollow⟩ := follow_of_directoryAt? hat
    obtain ⟨front, hjoin, hpath, hhead, hmem⟩ := exists_namesOf_join hne hname.isNameText
    have hstart : startOf (Storage.join path name) = startOf path := by
      simp only [startOf, String.startsWith_char_eq_head?, hhead]
    have hfront : t.follow (startOf path) (namesOf front) = .ok (.directory n) := by
      rcases hpath with hsame | hempty
      · rwa [hsame] at hfollow
      · rw [hempty] at hfollow
        exact follow_of_append_empty hfollow
    have hnul'' : Char.ofNat 0 ∉ (Storage.join path name).toList := fun hzero =>
      (hmem _ hzero).elim hnul' fun hrest => hrest.elim (by decide) hnul
    have hne' : Storage.join path name ≠ "" := by
      intro hempty
      rw [hempty] at hhead
      exact hne (String.toList_eq_nil_iff.1 (List.head?_eq_none_iff.1 hhead.symm))
    rw [locate, start_of hnul'' hne', hstart, hjoin]
    split
    · rfl
    · change t.follow _ _ = _
      rw [follow_append_singleton, hfront]
      rfl

/-! ## Writing -/

/-- Why nothing can be written at a name in a directory, if it cannot: the name
or its path is too long, or a directory stands there. -/
def writeFault? (t : FileTree) (path : String) (n : Nat) (name : String) : Option StorageFault :=
  if pathLimit < (Storage.join path name).utf8ByteSize then some .nameTooLong
  else match t.step (.directory n) name with
    | .error fault => some fault
    | .ok (.directory _) => some .isADirectory
    | .ok (.entry _ _) => none

/-- A name followed from a directory leads to a directory that stands there, or
to the name in it. -/
theorem step_eq_entry {n' : Nat} (hname : IsName name)
    (h : t.step (.directory n) name = .ok (.entry n' name')) :
    (n' = n ∧ name' = name) ∧ ∀ inner, t.find? n name ≠ some (.directory inner) := by
  unfold step at h
  simp only [hname.ne_empty, hname.ne_dot, hname.ne_dots, or_self, if_false] at h
  split at h
  · cases h
  split at h
  · cases h
  · rename_i hnot
    cases h
    exact ⟨⟨rfl, rfl⟩, hnot⟩

/-- **A file is written at its name, or not at all.** -/
theorem writeFile_join (h : t.IsDirectoryAt path n) (hname : IsName name) (bytes : List UInt8) :
    t.writeFile (Storage.join path name) bytes =
      match t.writeFault? path n name with
      | some fault => .error fault
      | none => .ok (t.put n name (.file bytes)) := by
  unfold writeFile writeFault?
  rw [locate_join h hname]
  split
  · rfl
  · cases hstep : t.step (.directory n) name with
    | error fault => rfl
    | ok spot =>
      cases spot with
      | directory inner => rfl
      | entry n' name' =>
        obtain ⟨⟨rfl, rfl⟩, -⟩ := step_eq_entry hname hstep
        rfl

/-- Where something can be written, no directory stands. -/
theorem find?_ne_directory (hname : IsName name) (h : t.writeFault? path n name = none)
    (inner : Nat) : t.find? n name ≠ some (.directory inner) := by
  unfold writeFault? at h
  split at h
  · cases h
  split at h
  · cases h
  · cases h
  · rename_i hstep
    exact (step_eq_entry hname hstep).2 inner

/-- Whether something can be written does not depend on the files. -/
theorem SameDirectories.writeFault?_eq (h : SameDirectories t u) (path : String) (n : Nat)
    (name : String) : u.writeFault? path n name = t.writeFault? path n name := by
  unfold writeFault?
  rw [h.step_eq]

/-- **A file can be written at a name in a directory.** -/
def IsWritable (t : FileTree) (path name : String) : Prop :=
  ∃ u, t.writeFile (Storage.join path name) [] = .ok u

theorem isWritable_iff (h : t.IsDirectoryAt path n) (hname : IsName name) :
    t.IsWritable path name ↔ t.writeFault? path n name = none := by
  unfold IsWritable
  rw [writeFile_join h hname]
  cases t.writeFault? path n name <;> simp

/-- Files put into a directory, one after the other. -/
def putFiles (t : FileTree) (n : Nat) (files : List (String × List UInt8)) : FileTree :=
  files.foldl (fun t file => t.put n file.1 (.file file.2)) t

/-- **Files of different names are all there in the end**, and nothing else
has changed. -/
theorem find?_putFiles {files : List (String × List UInt8)} (h : n < t.directories.size)
    (hnodup : (files.map Prod.fst).Nodup) :
    (∀ file ∈ files, (t.putFiles n files).find? n file.1 = some (.file file.2)) ∧
      ∀ directory name, (directory = n → name ∉ files.map Prod.fst) →
        (t.putFiles n files).find? directory name = t.find? directory name := by
  induction files generalizing t with
  | nil => exact ⟨nofun, fun _ _ _ => rfl⟩
  | cons file files ih =>
    obtain ⟨hnew, hnodup⟩ := List.nodup_cons.1 hnodup
    obtain ⟨hfiles, helse⟩ := ih (t := t.put n file.1 (.file file.2)) (by rwa [size_put]) hnodup
    refine ⟨fun file' hmem => ?_, fun directory name hnot => ?_⟩
    · rcases List.mem_cons.1 hmem with rfl | hmem
      · exact (helse n _ fun _ => hnew).trans (by rw [find?_put h, if_pos ⟨rfl, rfl⟩])
      · exact hfiles file' hmem
    · refine (helse directory name fun hd hmem => hnot hd (List.mem_cons_of_mem _ hmem)).trans ?_
      rw [find?_put h, if_neg]
      rintro ⟨hd, rfl⟩
      exact hnot hd List.mem_cons_self

/-- **A directory without files has those put there.** -/
theorem filesIn_putFiles {files : List (String × List UInt8)} (h : n < t.directories.size)
    (hempty : t.filesIn n = []) (hnodup : (files.map Prod.fst).Nodup) :
    ((t.putFiles n files).filesIn n).Perm files := by
  obtain ⟨hfiles, helse⟩ := find?_putFiles h hnodup
  have hdistinct {files : List (String × List UInt8)} (h : (files.map Prod.fst).Nodup) :
      files.Nodup :=
    List.Pairwise.of_map Prod.fst (fun _ _ hne heq => hne (congrArg Prod.fst heq)) h
  refine (List.perm_ext_iff_of_nodup (hdistinct (nodup_filesIn _ n)) (hdistinct hnodup)).2 ?_
  rintro ⟨name, bytes⟩
  rw [mem_filesIn]
  constructor
  · intro hfind
    by_cases hmem : name ∈ files.map Prod.fst
    · obtain ⟨file, hfile, rfl⟩ := List.mem_map.1 hmem
      rw [hfiles file hfile] at hfind
      cases hfind
      exact hfile
    · rw [helse n name fun _ => hmem, ← mem_filesIn, hempty] at hfind
      cases hfind
  · exact fun hmem => hfiles _ hmem

/-! ## Programs over a tree -/

/-- What follows in a program goes on with what was found and left. -/
theorem run_bind_of_run {α β : Type} {x : TreeM α} {f : α → TreeM β} {a : α}
    (h : x.run t = (a, u)) : (x >>= f).run t = (f a).run u := by
  rw [StateT.run_bind, h]
  rfl

/-- Opening a file leaves the tree as it is. -/
theorem run_openFile (t : FileTree) (path : String) :
    (Storage.openFile (m := TreeM) path).run t = (t.openFile path, t) := rfl

/-- Empty names at the end lead nowhere else. -/
theorem follow_dropWhile_empty {reversed : List String}
    (h : t.follow directory reversed.reverse = .ok (.directory n)) :
    t.follow directory (reversed.dropWhile (· = "")).reverse = .ok (.directory n) := by
  induction reversed with
  | nil => exact h
  | cons name reversed ih =>
    rw [List.dropWhile_cons]
    split
    · rename_i hempty
      have hname : name = "" := by simpa using hempty
      rw [List.reverse_cons, hname] at h
      exact ih (follow_of_append_empty h)
    · exact h

/-- **Nothing is done for a directory that is there.** -/
theorem ensureDirectory_of_isDirectoryAt (h : t.IsDirectoryAt path n) :
    (Storage.ensureDirectory (m := TreeM) path).run t = (.ok (), t) := by
  rcases h.leads with ⟨rfl, -⟩ | hat
  · rfl
  · obtain ⟨at', hstart, hfollow⟩ := directoryAt?_eq_some_iff.1 hat
    obtain ⟨-, hne, -⟩ := follow_of_directoryAt? hat
    have hlocate : t.locate path = .ok (.directory n) := by
      rw [locate, hstart]
      exact hfollow
    have hmake : t.makeDirectory path = .error .alreadyExists := by
      unfold makeDirectory
      rw [hstart]
      rw [← List.reverse_reverse at'.2] at hfollow
      simp only [bind, Except.bind, follow_dropWhile_empty hfollow]
      rfl
    have hopen : t.openFile path = .ok (.unreadable .isADirectory) := by
      rw [openFile, hlocate]
      rfl
    have hmade : (Storage.makeDirectory (m := TreeM) path).run t = (.error .alreadyExists, t) := by
      simp only [Storage.makeDirectory, TreeM.change, StateT.run_modifyGet, hmake]
      rfl
    have hopened : (Storage.isDirectory (m := TreeM) path).run t = (true, t) := by
      refine (run_bind_of_run (run_openFile t path)).trans ?_
      rw [hopen]
      rfl
    have hfind : (Storage.makeOrFind (m := TreeM) path).run t = (.ok (), t) :=
      (run_bind_of_run hmade).trans (run_bind_of_run hopened)
    unfold Storage.ensureDirectory
    rw [if_neg (by simpa using hne)]
    cases Storage.pathsAbove path with
    | nil => exact hfind
    | cons above rest => exact run_bind_of_run hfind

end FileTree

end ProgramStream

import ReversePolish.Files.Tree
import ReversePolish.Proofs.Paths

/-!
# What writing to a tree changes

Writing puts one file into a directory that was there before.  Every other place of the tree
stays what it was, so a file that could be read can still be read, and holds what it held,
unless it is the one that was written.  Paths that are the same lead to the same place, so
writing to the path of a file replaces what the file holds.

## Main results

* `FileTree.entry_set_of_ne` — a new file in a directory changes no other place.
* `FileTree.read_write_of_ne` — a file with another name is read as before.
* `FileTree.read_write_of_same` — a file that is written is read as it was written.
-/

namespace ReversePolish

namespace FileTree

/-! ## Places -/

/-- Whether a place is the top or on the way to a directory or a file. -/
def Leads (t : FileTree) (place : List String) : Prop :=
  place = [] ∨ (∃ directory ∈ t.directories, place <+: directory) ∨
    ∃ file ∈ t.files, place <+: file.1

theorem leads_iff (t : FileTree) (place : List String) :
    (place.isEmpty || t.directories.any place.isPrefixOf ||
      t.files.any fun file => place.isPrefixOf file.1) = true ↔ t.Leads place := by
  simp [Leads, or_assoc]

theorem leads_of_directory {t : FileTree} {place : List String}
    (h : t.entry place = .directory) : t.Leads place := by
  rw [entry] at h
  split at h
  · cases h
  · split at h
    · rename_i hLeads
      exact (leads_iff t place).1 hLeads
    · cases h

theorem entry_congr {t t' : FileTree} {place : List String}
    (hFile : t.files.lookup place = t'.files.lookup place)
    (hLeads : t.Leads place ↔ t'.Leads place) : t.entry place = t'.entry place := by
  have hWay := (leads_iff t place).trans (hLeads.trans (leads_iff t' place).symm)
  rw [entry, entry, hFile, Bool.eq_iff_iff.2 hWay]

theorem Leads.of_isPrefix {t : FileTree} {place other : List String} (h : t.Leads place)
    (hOther : other <+: place) : t.Leads other := by
  rcases h with rfl | ⟨directory, hMem, hWay⟩ | ⟨file, hMem, hWay⟩
  · exact Or.inl (List.prefix_nil.1 hOther)
  · exact Or.inr (Or.inl ⟨directory, hMem, hOther.trans hWay⟩)
  · exact Or.inr (Or.inr ⟨file, hMem, hOther.trans hWay⟩)

theorem lookup_filter_of_ne {files : List (List String × Content)} {place other : List String}
    (h : other ≠ place) : (files.filter (·.1 != place)).lookup other = files.lookup other := by
  induction files with
  | nil => rfl
  | cons file files ih =>
      obtain ⟨here, content⟩ := file
      by_cases hHere : here = place
      · have hOther : (other == here) = false := by simpa [hHere] using h
        rw [List.filter_cons_of_neg (by simp [hHere]), ih, List.lookup_cons, hOther]
      · rw [List.filter_cons_of_pos (by simpa using hHere), List.lookup_cons, List.lookup_cons, ih]

/-- A file that is put into a directory changes no other place. -/
theorem entry_set_of_ne {t : FileTree} {names place : List String} {name : String}
    (hDirectory : t.entry names = .directory) (hPlace : place ≠ names ++ [name])
    (content : Content) : (t.set (names ++ [name]) content).entry place = t.entry place := by
  apply entry_congr
  · have hOther : (place == names ++ [name]) = false := by simpa using hPlace
    show List.lookup place ((names ++ [name], content) :: _) = _
    rw [List.lookup_cons, hOther]
    exact lookup_filter_of_ne hPlace
  · constructor
    · rintro (rfl | hWay | ⟨file, hMem, hWay⟩)
      · exact Or.inl rfl
      · exact Or.inr (Or.inl hWay)
      · rcases List.mem_cons.1 hMem with rfl | hMem
        · rcases List.prefix_concat_iff.1 hWay with hSelf | hAbove
          · exact absurd hSelf hPlace
          · exact (leads_of_directory hDirectory).of_isPrefix hAbove
        · exact Or.inr (Or.inr ⟨file, (List.mem_filter.1 hMem).1, hWay⟩)
    · rintro (rfl | hWay | ⟨file, hMem, hWay⟩)
      · exact Or.inl rfl
      · exact Or.inr (Or.inl hWay)
      · by_cases hFile : file.1 = names ++ [name]
        · exact Or.inr (Or.inr ⟨_, List.mem_cons_self, hFile ▸ hWay⟩)
        · have hKept : file ∈ t.files.filter (·.1 != names ++ [name]) :=
            List.mem_filter.2 ⟨hMem, bne_iff_ne.2 hFile⟩
          exact Or.inr (Or.inr ⟨file, List.mem_cons_of_mem _ hKept, hWay⟩)

/-! ## Walks -/

theorem entryAt_of_enter {t : FileTree} {place next : Place} {part : String}
    (h : t.enter place part = .ok next) : t.entryAt place = .directory := by
  rw [enter.eq_def] at h
  split at h
  · cases h
  · cases h
  · assumption

theorem enter_congr {t t' : FileTree} {place : Place} (h : t.entryAt place = t'.entryAt place)
    (part : String) : t.enter place part = t'.enter place part := by
  rw [enter.eq_def, enter.eq_def, h]

theorem foldlM_enter_cons {t : FileTree} {part : String} {parts : List String}
    {start place : Place} :
    (part :: parts).foldlM t.enter start = .ok place ↔
      ∃ next, t.enter start part = .ok next ∧ parts.foldlM t.enter next = .ok place := by
  rw [List.foldlM_cons]
  cases t.enter start part with
  | error fault => exact iff_of_false (fun h => by cases h) (by simp)
  | ok next =>
      simp only [Except.ok.injEq, exists_eq_left']
      rfl

/-- A walk that succeeds is the same after a file has been put into a directory. -/
theorem foldlM_enter_set {t : FileTree} {names : List String} {name : String}
    (hDirectory : t.entry names = .directory) (hPlace : t.entry (names ++ [name]) ≠ .directory)
    (content : Content) {parts : List String} {start place : Place}
    (h : parts.foldlM t.enter start = .ok place) :
    parts.foldlM (t.set (names ++ [name]) content).enter start = .ok place := by
  induction parts generalizing start with
  | nil => exact h
  | cons part parts ih =>
      rw [foldlM_enter_cons] at h ⊢
      obtain ⟨next, hNext, hRest⟩ := h
      have hStart : t.entryAt start = .directory := entryAt_of_enter hNext
      have hSame : (t.set (names ++ [name]) content).entryAt start = t.entryAt start := by
        cases start with
        | above => rfl
        | inside here =>
            apply entry_set_of_ne hDirectory
            rintro rfl
            exact hPlace hStart
      rw [← enter_congr hSame] at hNext
      exact ⟨next, hNext, ih hRest⟩

/-- Where a walk starts. -/
def start (parts : List String) : Place :=
  if parts.head? = some "" then .above else .inside []

theorem walk_eq_foldlM (t : FileTree) (parts : List String) :
    t.walk parts = parts.foldlM t.enter (start parts) := by
  rw [walk.eq_def]
  split
  · rfl
  · rename_i hSlash
    rw [start, if_neg]
    intro hHead
    obtain ⟨rest, hParts⟩ := List.head?_eq_some_iff.1 hHead
    exact hSlash rest hParts

theorem walk_set {t : FileTree} {names : List String} {name : String}
    (hDirectory : t.entry names = .directory) (hPlace : t.entry (names ++ [name]) ≠ .directory)
    (content : Content) {parts : List String} {place : Place} (h : t.walk parts = .ok place) :
    (t.set (names ++ [name]) content).walk parts = .ok place := by
  rw [walk_eq_foldlM] at h ⊢
  exact foldlM_enter_set hDirectory hPlace content h

theorem read_eq_ok_iff {t : FileTree} {path text : String} :
    t.read path = .ok text ↔ path ≠ "" ∧
      ∃ place, t.walk (parts path) = .ok place ∧ t.entryAt place = .file (.text text) := by
  rw [read]
  by_cases hEmpty : path = ""
  · simp [hEmpty]
  · rw [if_neg (by simpa using hEmpty), and_iff_right hEmpty]
    cases hWalk : t.walk (parts path) with
    | error fault => simp
    | ok place =>
        cases hEntry : t.entryAt place with
        | absent => simp [hEntry]
        | directory => simp [hEntry]
        | file content => cases content <;> simp [hEntry]

/-- A path that does not end in a slash ends in its last part that is not empty. -/
theorem getLast?_of_dropWhile {parts above : List String} {name : String}
    (h : parts.reverse.dropWhile (·.isEmpty) = name :: above)
    (hLast : parts.getLast? ≠ some "") : parts.getLast? = some name := by
  rw [← List.head?_reverse] at hLast ⊢
  cases hParts : parts.reverse with
  | nil =>
      rw [hParts] at h
      cases h
  | cons last rest =>
      have hSome : last ≠ "" := by simpa [hParts] using hLast
      rw [hParts, List.dropWhile_cons_of_neg (by simpa using hSome)] at h
      cases h
      rfl

/-- What writing does, if it does anything: it puts a file into a directory. -/
theorem write_cases (t : FileTree) (path text : String) :
    (t.write path text).2 = t ∨
      ∃ names name, (parts path).getLast? = some name ∧ t.entry names = .directory ∧
        t.entry (names ++ [name]) ≠ .directory ∧
        t.write path text = (.ok (), t.set (names ++ [name]) (.text text)) := by
  rw [write]
  by_cases hPath : path.isEmpty = true
  · rw [if_pos hPath]
    exact Or.inl rfl
  · rw [if_neg hPath]
    cases hParts : (parts path).reverse.dropWhile (·.isEmpty) with
    | nil => exact Or.inl rfl
    | cons name above =>
        dsimp only
        cases t.walk above.reverse with
        | error fault => exact Or.inl rfl
        | ok directory =>
            cases directory with
            | above => exact Or.inl rfl
            | inside names =>
                cases hEntry : t.entryAt (.inside names) with
                | absent => exact Or.inl (by simp only [hEntry])
                | file content => exact Or.inl (by simp only [hEntry])
                | directory =>
                    simp only [hEntry]
                    split
                    · exact Or.inl rfl
                    · rename_i hAllowed
                      simp only [not_or] at hAllowed
                      have hLast := getLast?_of_dropWhile hParts hAllowed.2.2.1
                      exact Or.inr ⟨names, name, hLast, hEntry, hAllowed.2.2.2, rfl⟩

/-- The last part of a walk leads to where the walk ends. -/
theorem exists_enter_of_foldlM {t : FileTree} {front : List String} {part : String}
    {start place : Place} (h : (front ++ [part]).foldlM t.enter start = .ok place) :
    ∃ before, front.foldlM t.enter start = .ok before ∧ t.enter before part = .ok place := by
  induction front generalizing start with
  | nil =>
      obtain ⟨next, hNext, hRest⟩ := foldlM_enter_cons.1 h
      cases hRest
      exact ⟨start, rfl, hNext⟩
  | cons first front ih =>
      obtain ⟨next, hNext, hRest⟩ := foldlM_enter_cons.1 h
      obtain ⟨before, hFront, hLast⟩ := ih hRest
      exact ⟨before, foldlM_enter_cons.2 ⟨next, hNext, hFront⟩, hLast⟩

/-- Going to a file name leads to a place with that name. -/
theorem inside_of_enter {t : FileTree} {path name : String} {before place : Place}
    (hName : Path.fileName? path = some name) (h : t.enter before name = .ok place) :
    ∃ names, before = .inside names ∧ place = .inside (names ++ [name]) := by
  obtain ⟨hSome, hPoint, hUp⟩ := Path.fileName?_ne hName
  have hBefore := entryAt_of_enter h
  simp only [enter.eq_def, hBefore, if_neg (not_or.2 ⟨hSome, hPoint⟩), if_neg hUp] at h
  cases before with
  | above => cases h
  | inside names =>
      cases names with
      | nil =>
          cases h
          exact ⟨[], rfl, rfl⟩
      | cons first names =>
          cases h
          exact ⟨first :: names, rfl, rfl⟩

/-- A file that can be reached stands in the directory to which the rest of its path leads, and
its name is the last part of the path. -/
theorem place_of_walk {t : FileTree} {path name : String} {place : Place} {content : Content}
    (hName : Path.fileName? path = some name) (hWalk : t.walk (parts path) = .ok place)
    (hFile : t.entryAt place = .file content) :
    ∃ front names, parts path = front ++ [name] ∧ place = .inside (names ++ [name]) ∧
      t.entry names = .directory ∧
      front.foldlM t.enter (start (parts path)) = .ok (.inside names) := by
  obtain ⟨part, hLast⟩ : ∃ part, (Text.split '/' path.toList).getLast? = some part := by
    obtain ⟨first, rest, hParts⟩ := Text.exists_split '/' path.toList
    exact ⟨_, by rw [hParts, List.getLast?_cons]⟩
  obtain ⟨front, hFront⟩ : ∃ front, parts path = front ++ [String.ofList part] := by
    apply List.getLast?_eq_some_iff.1
    rw [parts, List.getLast?_map, hLast, Option.map_some]
  rw [walk_eq_foldlM, hFront] at hWalk
  obtain ⟨before, hBefore, hEnter⟩ := exists_enter_of_foldlM hWalk
  have hDirectory := entryAt_of_enter hEnter
  cases hSignificant : Path.isSignificant part with
  | false =>
      -- The walk would end where it was before, in a directory.
      have hIdle : String.ofList part = "" ∨ String.ofList part = "." :=
        (Path.isSignificant_eq_false_iff.1 hSignificant).imp
          (congrArg String.ofList) (congrArg String.ofList)
      simp only [enter.eq_def, hDirectory, if_pos hIdle, Except.ok.injEq] at hEnter
      rw [← hEnter, hDirectory] at hFile
      cases hFile
  | true =>
      have hSame := Path.fileName?_of_getLast? hName hLast hSignificant
      rw [← hSame, String.ofList_toList] at hEnter hFront hBefore
      obtain ⟨names, rfl, hPlace⟩ := inside_of_enter hName hEnter
      rw [hFront]
      exact ⟨front, names, rfl, hPlace, hDirectory, hBefore⟩

/-- Writing to a path with another last part leaves a file as it is. -/
theorem read_write_of_ne {t : FileTree} {input name text path : String}
    (hRead : t.read input = .ok text) (hName : Path.fileName? input = some name)
    (hPath : (parts path).getLast? ≠ some name) (content : String) :
    (t.write path content).2.read input = .ok text := by
  obtain ⟨hSome, place, hWalk, hFile⟩ := read_eq_ok_iff.1 hRead
  rcases write_cases t path content with hSame | ⟨names, last, hLast, hDirectory, hNew, hWrite⟩
  · rw [hSame]
    exact hRead
  · have hSet : (t.write path content).2 = t.set (names ++ [last]) (.text content) := by
      rw [hWrite]
    rw [hSet, read_eq_ok_iff]
    refine ⟨hSome, place, walk_set hDirectory hNew _ hWalk, ?_⟩
    obtain ⟨-, above, -, rfl, -⟩ := place_of_walk hName hWalk hFile
    have hOther : above ++ [name] ≠ names ++ [last] := by
      intro hEq
      have hNames : [name] = [last] := (List.append_inj' hEq rfl).2
      rw [List.singleton_inj.1 hNames] at hPath
      exact hPath hLast
    show (t.set (names ++ [last]) (.text content)).entry (above ++ [name]) = _
    rw [entry_set_of_ne hDirectory hOther]
    exact hFile

/-! ## Paths that are the same -/

/-- Whether a part of a path leads somewhere else. -/
def isStep (part : String) : Bool := Path.isSignificant part.toList

theorem enter_idle {t : FileTree} {place : Place} {part : String} (h : isStep part = false)
    (hPlace : t.entryAt place = .directory) : t.enter place part = .ok place := by
  have hIdle : part = "" ∨ part = "." :=
    (Path.isSignificant_eq_false_iff.1 h).imp String.toList_inj.1 String.toList_inj.1
  simp only [enter.eq_def, hPlace, if_pos hIdle]

/-- A walk that ends in a directory starts in one. -/
theorem entryAt_of_foldlM {t : FileTree} {parts : List String} {start place : Place}
    (h : parts.foldlM t.enter start = .ok place) (hPlace : t.entryAt place = .directory) :
    t.entryAt start = .directory := by
  cases parts with
  | nil =>
      cases h
      exact hPlace
  | cons part parts =>
      obtain ⟨next, hNext, -⟩ := foldlM_enter_cons.1 h
      exact entryAt_of_enter hNext

/-- A walk to a directory may leave out the parts that lead nowhere else. -/
theorem foldlM_filter_iff {t : FileTree} {place : Place} (hPlace : t.entryAt place = .directory)
    (parts : List String) (start : Place) :
    (parts.filter isStep).foldlM t.enter start = .ok place ↔
      parts.foldlM t.enter start = .ok place := by
  induction parts generalizing start with
  | nil => rfl
  | cons part parts ih =>
      cases hStep : isStep part with
      | true =>
          rw [List.filter_cons_of_pos hStep, foldlM_enter_cons, foldlM_enter_cons]
          exact exists_congr fun next => and_congr_right fun _ => ih next
      | false =>
          rw [List.filter_cons_of_neg (by simp [hStep]), foldlM_enter_cons, ih start]
          constructor
          · intro h
            exact ⟨start, enter_idle hStep (entryAt_of_foldlM h hPlace), h⟩
          · rintro ⟨next, hNext, hRest⟩
            rw [enter_idle hStep (entryAt_of_enter hNext)] at hNext
            cases hNext
            exact hRest

/-- Paths that are the same start at the same place and have the same steps. -/
theorem steps_of_same {path other : String} (h : Path.Same path other) (hPath : path ≠ "")
    (hOther : other ≠ "") :
    start (parts path) = start (parts other) ∧
      (parts path).filter isStep = (parts other).filter isStep := by
  have hSteps (path : String) :
      (parts path).filter isStep = (Path.names path).map String.ofList := by
    rw [Path.names_eq_filter_split, parts, List.filter_map]
    congr 1
    apply List.filter_congr
    intro part _
    show Path.isSignificant (String.ofList part).toList = Path.isSignificant part
    rw [String.toList_ofList]
  have hStart {path : String} (hPath : path ≠ "") :
      (parts path).head? = some "" ↔ (Path.anchor path.toList).1 = ['/'] := by
    rw [← Path.head?_split_eq_nil_iff (by simpa using hPath), parts, List.head?_map]
    cases (Text.split '/' path.toList).head? with
    | none => simp
    | some part =>
        rw [Option.map_some, Option.some.injEq, Option.some.injEq, ← String.toList_inj,
          String.toList_ofList]
        rfl
  refine ⟨?_, ?_⟩
  · simp only [start, hStart hPath, hStart hOther, h.1]
  · rw [hSteps, hSteps, h.2]

theorem start_concat {name : String} (h : name ≠ "") (front : List String) :
    start (front ++ [name]) = start front := by
  cases front with
  | nil => simp [start, h]
  | cons part front => rfl

theorem entry_set_self (t : FileTree) (place : List String) (content : Content) :
    (t.set place content).entry place = .file content := by
  simp [entry, set]

/-- Writing to a name in a directory that is not a directory itself puts a file there. -/
theorem write_eq_set {t : FileTree} {input path name : String} {front names : List String}
    (hName : Path.fileName? input = some name) (hParts : parts path = front ++ [name])
    (hWalk : t.walk front = .ok (.inside names)) (hDirectory : t.entry names = .directory)
    (hPlace : t.entry (names ++ [name]) ≠ .directory) (content : String) :
    t.write path content = (.ok (), t.set (names ++ [name]) (.text content)) := by
  obtain ⟨hSome, hPoint, hUp⟩ := Path.fileName?_ne hName
  have hReverse : (parts path).reverse.dropWhile (·.isEmpty) = name :: front.reverse := by
    rw [hParts, List.reverse_concat, List.dropWhile_cons_of_neg (by simpa using hSome)]
  have hLast : (parts path).getLast? ≠ some "" := by
    rw [hParts, List.getLast?_concat]
    simpa using hSome
  have hPath : ¬ path.isEmpty = true := by
    intro hEmpty
    rw [String.isEmpty_iff.1 hEmpty] at hLast
    exact hLast rfl
  have hInside : t.entryAt (.inside names) = .directory := hDirectory
  rw [write, if_neg hPath, hReverse]
  simp only [List.reverse_reverse, hWalk, hInside]
  rw [if_neg]
  simp only [not_or]
  exact ⟨hPoint, hUp, hLast, hPlace⟩

/-- Writing to the path of a file that can be read replaces what the file holds. -/
theorem read_write_of_same {t : FileTree} {input name text path : String}
    (hRead : t.read input = .ok text) (hName : Path.fileName? input = some name)
    (hSame : Path.Same input path) (hLast : (parts path).getLast? = some name)
    (content : String) :
    (t.write path content).1 = .ok () ∧ (t.write path content).2.read input = .ok content := by
  obtain ⟨hSome, place, hWalk, hFile⟩ := read_eq_ok_iff.1 hRead
  obtain ⟨front, names, hParts, rfl, hDirectory, hFront⟩ := place_of_walk hName hWalk hFile
  obtain ⟨front', hParts'⟩ := List.getLast?_eq_some_iff.1 hLast
  have hNonempty := (Path.fileName?_ne hName).1
  have hPath : path ≠ "" := by
    rintro rfl
    exact hNonempty (Option.some.inj hLast).symm
  have hNew : t.entry (names ++ [name]) ≠ .directory := by
    intro hEntry
    rw [show t.entryAt (.inside (names ++ [name])) = .directory from hEntry] at hFile
    cases hFile
  obtain ⟨hStart, hSteps⟩ := steps_of_same hSame hSome hPath
  rw [hParts, hParts', List.filter_append, List.filter_append, List.append_cancel_right_eq]
    at hSteps
  have hInside : t.entryAt (.inside names) = .directory := hDirectory
  have hWalk' : t.walk front' = .ok (.inside names) := by
    rw [walk_eq_foldlM, ← start_concat hNonempty, ← hParts', ← hStart,
      ← foldlM_filter_iff hInside, ← hSteps, foldlM_filter_iff hInside]
    exact hFront
  rw [write_eq_set hName hParts' hWalk' hDirectory hNew]
  refine ⟨rfl, read_eq_ok_iff.2 ⟨hSome, _, walk_set hDirectory hNew _ hWalk, ?_⟩⟩
  exact entry_set_self t _ _

end FileTree

end ReversePolish

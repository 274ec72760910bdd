import ReversePolish.Proofs.Batch
import ReversePolish.Proofs.TreeFrame

/-!
# Artifacts beside their source

An artifact stands in the directory of its source and is named by the source's name without
the source extension and with another one.  It is the source itself if that other extension is
the source extension again, in whatever case, and the check of the settings does not rule this
out.  Then compiling overwrites the source.  In all other cases the source keeps what it holds,
as long as no slash in an extension leads out of the directory.

## Main results

* `same_artifactWith_iff` — when a source is its own artifact.
* `ApartAsPaths.apart`, `compileEach_perm_of_paths` — files that are apart as paths are apart in
  whatever texts, and their order does not matter.
* `read_compileFile` — compiling leaves a source alone whose artifacts have other names.
* `read_compileFile_of_code` — compiling overwrites a source that is its own code.
* `artifacts_spare_input` — the source and its two artifacts.
-/

namespace ReversePolish

/-! ## Names without an extension -/

/-- An extension is taken off whatever its case, if something stands in front of it. -/
theorem withoutExtension_append {name extension : String} {stem tail : List Char}
    (hStem : stem ≠ []) (hName : name.toList = stem ++ tail)
    (hTail : tail.map Char.toLower = extension.toList.map Char.toLower) :
    (withoutExtension name extension).toList = stem := by
  have hLength : tail.length = extension.length := by
    have hLength := congrArg List.length hTail
    rwa [List.length_map, List.length_map, String.length_toList] at hLength
  have hTake : name.toList.take (name.toList.length - extension.length) = stem := by
    rw [hName, List.length_append, ← hLength, Nat.add_sub_cancel]
    exact List.take_left' rfl
  have hDrop : name.toList.drop stem.length = tail := by
    rw [hName]
    exact List.drop_left' rfl
  simp [withoutExtension, hTake, hDrop, hTail, hStem]

/-- A name is kept, or the extension is taken off and something is left. -/
theorem withoutExtension_cases (name extension : String) :
    withoutExtension name extension = name ∨
      (withoutExtension name extension).toList ≠ [] ∧
        ∃ tail, name.toList = (withoutExtension name extension).toList ++ tail ∧
          tail.map Char.toLower = extension.toList.map Char.toLower := by
  let stem := name.toList.take (name.toList.length - extension.length)
  let tail := name.toList.drop stem.length
  have hStem : stem <+: name.toList := List.take_prefix _ _
  have hName : name.toList = stem ++ tail := (List.prefix_iff_eq_append.1 hStem).symm
  by_cases hTaken : stem ≠ [] ∧ tail.map Char.toLower = extension.toList.map Char.toLower
  · right
    rw [withoutExtension_append hTaken.1 hName hTaken.2]
    exact ⟨hTaken.1, tail, hName, hTaken.2⟩
  · left
    show (if !stem.isEmpty && tail.map Char.toLower == extension.toList.map Char.toLower then
      String.ofList stem else String.ofList name.toList) = name
    rw [if_neg]
    · exact String.ofList_toList
    · simpa using hTaken

/-! ## Artifacts as paths -/

/-- The artifact of a source with an extension. -/
def artifactWith (sourceExtension input extension : String) : String :=
  Path.join ((Path.parent? input).getD "")
    (withoutExtension (Path.fileName input) sourceExtension ++ extension)

theorem ArtifactPaths.ofInput_code (s : Settings) (input : String) :
    (ofInput s input).code = artifactWith s.sourceExtension input s.targetExtension := by
  rw [ofInput, artifactWith]

theorem ArtifactPaths.ofInput_map (s : Settings) (input : String) :
    (ofInput s input).map =
      artifactWith s.sourceExtension input (s.targetExtension ++ s.mapExtension) := by
  rw [ofInput, artifactWith, String.append_assoc]

/-- Whether an extension gives a source's own name back: the name ends in the part of the
extension in front of its first slash, that part is the source extension in some case, and
nothing significant follows it. -/
def GivesBack (sourceExtension extension name : String) : Prop :=
  ∃ stem first rest, stem ≠ [] ∧ name.toList = stem ++ first ∧
    first.map Char.toLower = sourceExtension.toList.map Char.toLower ∧
    Text.split '/' extension.toList = first :: rest ∧
    ∀ part ∈ rest, Path.isSignificant part = false

section Artifacts

variable (sourceExtension : String) {extension input name : String}

/-- An extension is a point and something behind it. -/
theorem exists_of_isExtension (h : Settings.isExtension extension = true) :
    ∃ c cs, extension.toList = '.' :: c :: cs := by
  rw [Settings.isExtension] at h
  split at h
  · rename_i c cs hChars
    exact ⟨c, cs, hChars⟩
  · cases h

/-- An extension starts with a point, and so does its first part. -/
theorem exists_split_extension (h : Settings.isExtension extension = true) :
    ∃ first rest, Text.split '/' extension.toList = ('.' :: first) :: rest := by
  obtain ⟨c, cs, hChars⟩ := exists_of_isExtension h
  obtain ⟨first, rest, hRest⟩ := Text.exists_split '/' (c :: cs)
  rw [hChars]
  exact ⟨first, rest, @Text.split_append '/' ['.'] _ _ _ (by decide) hRest⟩

theorem isExtension_append (h : Settings.isExtension extension = true) (more : String) :
    Settings.isExtension (extension ++ more) = true := by
  obtain ⟨c, cs, hChars⟩ := exists_of_isExtension h
  rw [Settings.isExtension, String.toList_append, hChars]
  rfl

/-- Something is left of a file name, and no slash stands in it. -/
theorem withoutExtension_stem (hName : Path.fileName? input = some name) :
    (withoutExtension name sourceExtension).toList ≠ [] ∧
      '/' ∉ (withoutExtension name sourceExtension).toList := by
  obtain ⟨above, -, hSignificant, hSlash, -⟩ := Path.parts_of_fileName? hName
  rcases withoutExtension_cases name sourceExtension with hKept | ⟨hStem, tail, hTail, -⟩
  · rw [hKept]
    refine ⟨?_, hSlash⟩
    intro hNil
    rw [hNil] at hSignificant
    cases hSignificant
  · refine ⟨hStem, ?_⟩
    rw [hTail, List.mem_append, not_or] at hSlash
    exact hSlash.1

/-- The parts of an artifact's name. -/
def artifactParts (sourceExtension name extension : String) : List (List Char) :=
  Text.split '/' (withoutExtension name sourceExtension ++ extension).toList

theorem artifactParts_eq (hName : Path.fileName? input = some name) {first : List Char}
    {rest : List (List Char)} (hFirst : Text.split '/' extension.toList = first :: rest) :
    artifactParts sourceExtension name extension =
      ((withoutExtension name sourceExtension).toList ++ first) :: rest := by
  rw [artifactParts, String.toList_append]
  exact Text.split_append (withoutExtension_stem sourceExtension hName).2 hFirst

/-- An artifact has the anchor of its source, and its own name in place of the source's. -/
theorem artifactWith_names (hName : Path.fileName? input = some name)
    (hExtension : Settings.isExtension extension = true) :
    (Path.anchor (artifactWith sourceExtension input extension).toList).1 =
        (Path.anchor input.toList).1 ∧
      Path.names (artifactWith sourceExtension input extension) =
        Path.names ((Path.parent? input).getD "") ++
          (artifactParts sourceExtension name extension).filter Path.isSignificant := by
  obtain ⟨first, rest, hFirst⟩ := exists_split_extension hExtension
  have hParts := artifactParts_eq sourceExtension hName hFirst
  have hStem := (withoutExtension_stem sourceExtension hName).1
  have hJoin := Path.names_join ((Path.parent? input).getD "") hParts
    (Path.isSignificant_append hStem '.' first)
  rw [artifactWith, Path.fileName, hName, Option.getD_some, hJoin.1]
  exact ⟨(Path.names_parent hName).1, hJoin.2⟩

/-- A source is its own artifact if the artifact's name has no significant part but the
source's name. -/
theorem same_artifactWith_iff_names (hName : Path.fileName? input = some name)
    (hExtension : Settings.isExtension extension = true) :
    Path.Same input (artifactWith sourceExtension input extension) ↔
      [name.toList] =
        (artifactParts sourceExtension name extension).filter Path.isSignificant := by
  have hArtifact := artifactWith_names sourceExtension hName hExtension
  rw [Path.Same, hArtifact.1, hArtifact.2, (Path.names_parent hName).2,
    List.append_cancel_left_eq]
  exact and_iff_right rfl

/-- A source is its own artifact exactly if the extension gives its name back. -/
theorem same_artifactWith_iff (hName : Path.fileName? input = some name)
    (hExtension : Settings.isExtension extension = true) :
    Path.Same input (artifactWith sourceExtension input extension) ↔
      GivesBack sourceExtension extension name := by
  obtain ⟨first, rest, hFirst⟩ := exists_split_extension hExtension
  have hStem := (withoutExtension_stem sourceExtension hName).1
  rw [same_artifactWith_iff_names sourceExtension hName hExtension,
    artifactParts_eq sourceExtension hName hFirst,
    List.filter_cons_of_pos (Path.isSignificant_append hStem '.' first)]
  constructor
  · intro hNames
    rw [List.cons.injEq, eq_comm (a := []), List.filter_eq_nil_iff] at hNames
    obtain ⟨hSelf, hRest⟩ := hNames
    refine ⟨_, _, rest, hStem, hSelf, ?_, hFirst, fun part hMem => by simpa using hRest part hMem⟩
    rcases withoutExtension_cases name sourceExtension with hKept | ⟨-, tail, hTail, hLower⟩
    · rw [hKept] at hSelf
      simp at hSelf
    · rw [hTail, List.append_cancel_left_eq] at hSelf
      rw [← hSelf, hLower]
  · rintro ⟨stem, first', rest', hSome, hSelf, hLower, hParts, hRest⟩
    rw [hFirst, List.cons.injEq] at hParts
    obtain ⟨rfl, rfl⟩ := hParts
    rw [withoutExtension_append hSome hSelf hLower, ← hSelf, List.cons.injEq, eq_comm (a := []),
      List.filter_eq_nil_iff]
    exact ⟨rfl, fun part hMem => by simp [hRest part hMem]⟩

/-- Two artifacts of a source are the same path if their names have the same significant parts. -/
theorem artifactWith_same_iff {other : String} (hName : Path.fileName? input = some name)
    (hExtension : Settings.isExtension extension = true)
    (hOther : Settings.isExtension other = true) :
    Path.Same (artifactWith sourceExtension input extension)
        (artifactWith sourceExtension input other) ↔
      (artifactParts sourceExtension name extension).filter Path.isSignificant =
        (artifactParts sourceExtension name other).filter Path.isSignificant := by
  have hArtifact := artifactWith_names sourceExtension hName hExtension
  have hOther := artifactWith_names sourceExtension hName hOther
  rw [Path.Same, hArtifact.1, hArtifact.2, hOther.1, hOther.2, List.append_cancel_left_eq]
  exact and_iff_right rfl

/-- A longer extension gives another path, unless all that it adds is idle. -/
theorem artifactWith_same_append_iff {more : String} (hName : Path.fileName? input = some name)
    (hExtension : Settings.isExtension extension = true)
    (hMore : Settings.isExtension more = true) :
    Path.Same (artifactWith sourceExtension input extension)
        (artifactWith sourceExtension input (extension ++ more)) ↔
      extension.toList.getLast? = some '/' ∧
        ∀ part ∈ Text.split '/' more.toList, Path.isSignificant part = false := by
  obtain ⟨first, rest, hFirst⟩ := exists_split_extension hMore
  have hSome : extension.toList ≠ [] := by
    intro hNil
    rw [Settings.isExtension, hNil] at hExtension
    cases hExtension
  have hShort : (withoutExtension name sourceExtension ++ extension).toList ≠ [] := by
    simp [hSome]
  have hLong : (withoutExtension name sourceExtension ++ (extension ++ more)).toList =
      (withoutExtension name sourceExtension ++ extension).toList ++ more.toList := by
    rw [← String.append_assoc, String.toList_append]
  rw [artifactWith_same_iff sourceExtension hName hExtension (isExtension_append hExtension more),
    artifactParts, artifactParts, hLong, Path.filter_split_append_iff hShort hFirst,
    String.toList_append, List.getLast?_append_of_ne_nil _ hSome]

/-- The last part of an artifact with an extension without slashes is its whole name. -/
theorem getLast?_artifactWith (hName : Path.fileName? input = some name)
    (hSlash : '/' ∉ extension.toList) :
    (FileTree.parts (artifactWith sourceExtension input extension)).getLast? =
      some (withoutExtension name sourceExtension ++ extension) := by
  have hStem := (withoutExtension_stem sourceExtension hName).2
  have hWhole : '/' ∉ (withoutExtension name sourceExtension ++ extension).toList := by
    rw [String.toList_append, List.mem_append, not_or]
    exact ⟨hStem, hSlash⟩
  rw [FileTree.parts, List.getLast?_map, artifactWith, Path.fileName, hName, Option.getD_some,
    Path.getLast?_split_join, Text.split_of_not_mem hWhole, List.getLast?_singleton,
    Option.map_some, String.ofList_toList]

/-- With an extension without slashes, a source is its own artifact exactly if the artifact's
path ends in the source's name. -/
theorem same_artifactWith_iff_getLast? (hName : Path.fileName? input = some name)
    (hExtension : Settings.isExtension extension = true) (hSlash : '/' ∉ extension.toList) :
    Path.Same input (artifactWith sourceExtension input extension) ↔
      (FileTree.parts (artifactWith sourceExtension input extension)).getLast? = some name := by
  obtain ⟨first, rest, hFirst⟩ := exists_split_extension hExtension
  have hStem := (withoutExtension_stem sourceExtension hName).1
  have hWhole := hFirst
  rw [Text.split_of_not_mem hSlash, List.cons.injEq] at hWhole
  rw [getLast?_artifactWith sourceExtension hName hSlash, Option.some.injEq,
    same_artifactWith_iff_names sourceExtension hName hExtension,
    artifactParts_eq sourceExtension hName hFirst,
    List.filter_cons_of_pos (Path.isSignificant_append hStem '.' first), ← hWhole.1, ← hWhole.2,
    List.filter_nil, List.singleton_inj, ← String.toList_append, String.toList_inj, eq_comm]

/-- Texts for one source have artifacts that are one path. -/
theorem artifactWith_same_of_same {other : String} (hName : Path.fileName? input = some name)
    (hExtension : Settings.isExtension extension = true) (h : Path.Same input other) :
    Path.Same (artifactWith sourceExtension input extension)
      (artifactWith sourceExtension other extension) := by
  have hOther := Path.fileName?_of_same h hName
  have hNames := (Path.names_parent hName).2
  rw [h.2, (Path.names_parent hOther).2] at hNames
  obtain ⟨hAnchor, hParts⟩ := artifactWith_names sourceExtension hName hExtension
  obtain ⟨hAnchor', hParts'⟩ := artifactWith_names sourceExtension hOther hExtension
  refine ⟨by rw [hAnchor, hAnchor', h.1], ?_⟩
  rw [hParts, hParts', (List.append_inj' hNames rfl).1]

end Artifacts

/-! ## Files that are apart as paths -/

/-- Whether the artifacts of a file are, as paths, neither another file nor one of its
artifacts. -/
def ApartAsPaths (s : Settings) (input other : String) : Prop :=
  ∀ path ∈ artifactsOf s input, ¬ Path.Same path other ∧
    ∀ artifact ∈ artifactsOf s other, ¬ Path.Same path artifact

theorem exists_same_artifact {s : Settings} (hCheck : s.check = .ok ()) {input name : String}
    (hName : Path.fileName? input = some name) {input' : String} (h : Path.Same input input')
    {path' : String} (hPath : path' ∈ artifactsOf s input') :
    ∃ path ∈ artifactsOf s input, Path.Same path path' := by
  obtain ⟨_, hTarget, _⟩ := (Settings.faults_eq_nil_iff s).1 ((Settings.check_eq_ok_iff s).1 hCheck)
  simp only [artifactsOf, ArtifactPaths.ofInput_code, ArtifactPaths.ofInput_map, List.mem_cons,
    List.not_mem_nil, or_false] at hPath ⊢
  rcases hPath with rfl | rfl
  · exact ⟨_, .inl rfl, artifactWith_same_of_same _ hName hTarget h⟩
  · exact ⟨_, .inr rfl, artifactWith_same_of_same _ hName
      (isExtension_append hTarget s.mapExtension) h⟩

/-- Files that are apart as paths are apart, whatever texts they are given by. -/
theorem ApartAsPaths.apart {s : Settings} (hCheck : s.check = .ok ()) {input other : String}
    (h : ApartAsPaths s input other) {name name' : String}
    (hName : Path.fileName? input = some name) (hName' : Path.fileName? other = some name')
    {input' other' : String} (hInput : Path.Same input input')
    (hOther : Path.Same other other') : Apart s input' other' := by
  intro path' hPath'
  obtain ⟨path, hPath, hSame⟩ := exists_same_artifact hCheck hName hInput hPath'
  constructor
  · rintro rfl
    exact (h path hPath).1 (hSame.trans hOther.symm)
  · intro hShared
    obtain ⟨artifact, hArtifact, hSame'⟩ := exists_same_artifact hCheck hName' hOther hShared
    exact (h path hPath).2 artifact hArtifact (hSame.trans hSame'.symm)

/-- Files that are apart as paths may be compiled in any order. -/
theorem compileEach_perm_of_paths {s : Settings} (hCheck : s.check = .ok ()) {rights : Rights}
    {inputs inputs' : List String} (hPerm : inputs.Perm inputs')
    (hNames : ∀ input ∈ inputs, ∃ name, Path.fileName? input = some name)
    (hApart : ∀ a ∈ inputs, ∀ b ∈ inputs, a ≠ b → ApartAsPaths s a b) (d : Disk) :
    ((compileEach s rights inputs).run d).1.Perm ((compileEach s rights inputs').run d).1 ∧
      ((compileEach s rights inputs).run d).2.files =
        ((compileEach s rights inputs').run d).2.files := by
  refine compileEach_perm hPerm (fun a ha b hb hDiffer => ?_) d
  obtain ⟨name, hName⟩ := hNames a ha
  obtain ⟨name', hName'⟩ := hNames b hb
  exact (hApart a ha b hb hDiffer).apart hCheck hName hName' (.refl a) (.refl b)

/-! ## Compiling in a tree -/

section Tree

variable {t : FileTree} {s : Settings} {input name text : String} {paths : ArtifactPaths}
  {compiled : Compiled}

theorem FileTree.access_write_run (t : FileTree) (path content : String) :
    (access.write path content).run t =
      ((t.write path content).1, (t.write path content).2) := rfl

/-- Once the code has been written, the source map is. -/
theorem writeArtifacts_tree (hCode : (t.write paths.code compiled.code).1 = .ok ()) :
    ((writeArtifacts s FileTree.access paths compiled).run t).2 =
      ((t.write paths.code compiled.code).2.write paths.map
        (compiled.map.write s.prettyMap)).2 := by
  rw [writeArtifacts, run_bind_of_run (FileTree.access_write_run t _ _), hCode]
  dsimp only
  rw [run_bind_of_run (FileTree.access_write_run _ _ _)]
  split <;> rfl

/-- If the code cannot be written, nothing else is. -/
theorem writeArtifacts_tree_error {fault : FileFault}
    (hCode : (t.write paths.code compiled.code).1 = .error fault) :
    ((writeArtifacts s FileTree.access paths compiled).run t).1 =
        .error (.file paths.code fault) ∧
      ((writeArtifacts s FileTree.access paths compiled).run t).2 =
        (t.write paths.code compiled.code).2 := by
  rw [writeArtifacts, run_bind_of_run (FileTree.access_write_run t _ _), hCode]
  exact ⟨rfl, rfl⟩

/-- A file that has been compiled has had its artifacts written. -/
theorem compileFile_tree (hRead : t.read input = .ok text)
    (hCompiled : Compiled.ofText s input (Path.fileName input) text = .ok compiled) :
    ((compileFile s FileTree.access input).run t).2 =
        ((writeArtifacts s FileTree.access (ArtifactPaths.ofInput s input) compiled).run t).2 ∧
      (((compileFile s FileTree.access input).run t).1.succeeded = true →
        ((writeArtifacts s FileTree.access (ArtifactPaths.ofInput s input) compiled).run t).1 =
          .ok ()) := by
  have hFirst : (FileTree.access.read input).run t = (t.read input, t) := rfl
  rw [compileFile, run_bind_of_run hFirst, hRead]
  dsimp only
  rw [hCompiled]
  dsimp only
  rcases hWriting : (writeArtifacts s FileTree.access (ArtifactPaths.ofInput s input)
    compiled).run t with ⟨result, after⟩
  rw [run_bind_of_run hWriting]
  cases result with
  | error fault => exact ⟨rfl, fun h => by cases h⟩
  | ok u => exact ⟨rfl, fun _ => rfl⟩

/-- A file is as it was once it has been compiled, if its artifacts have other names. -/
theorem read_compileFile (hName : Path.fileName? input = some name)
    (hCode : (FileTree.parts (ArtifactPaths.ofInput s input).code).getLast? ≠ some name)
    (hMap : (FileTree.parts (ArtifactPaths.ofInput s input).map).getLast? ≠ some name)
    (t : FileTree) :
    ((compileFile s FileTree.access input).run t).2.read input = t.read input := by
  have hFirst : (FileTree.access.read input).run t = (t.read input, t) := rfl
  cases hRead : t.read input with
  | error fault =>
      rw [compileFile, run_bind_of_run hFirst, hRead]
      exact hRead
  | ok text =>
      cases hCompiled : Compiled.ofText s input (Path.fileName input) text with
      | error fault =>
          rw [compileFile, run_bind_of_run hFirst, hRead]
          dsimp only
          rw [hCompiled]
          exact hRead
      | ok compiled =>
          have hKept := FileTree.read_write_of_ne hRead hName hCode compiled.code
          rw [(compileFile_tree hRead hCompiled).1]
          cases hWrite : (t.write (ArtifactPaths.ofInput s input).code compiled.code).1 with
          | error fault =>
              rw [(writeArtifacts_tree_error hWrite).2]
              exact hKept
          | ok u =>
              rw [writeArtifacts_tree hWrite]
              exact FileTree.read_write_of_ne hKept hName hMap _

/-- A file that is its own code holds the code once it has been compiled. -/
theorem read_compileFile_of_code (hName : Path.fileName? input = some name)
    (hSame : Path.Same input (ArtifactPaths.ofInput s input).code)
    (hCode : (FileTree.parts (ArtifactPaths.ofInput s input).code).getLast? = some name)
    (hMap : (FileTree.parts (ArtifactPaths.ofInput s input).map).getLast? ≠ some name)
    (hRead : t.read input = .ok text)
    (hCompiled : Compiled.ofText s input (Path.fileName input) text = .ok compiled) :
    ((compileFile s FileTree.access input).run t).2.read input = .ok compiled.code := by
  obtain ⟨hWrite, hHolds⟩ :=
    FileTree.read_write_of_same hRead hName hSame hCode compiled.code
  rw [(compileFile_tree hRead hCompiled).1, writeArtifacts_tree hWrite]
  exact FileTree.read_write_of_ne hHolds hName hMap _

/-- A file that is its own source map holds the map once it has been compiled. -/
theorem read_compileFile_of_map (hName : Path.fileName? input = some name)
    (hSame : Path.Same input (ArtifactPaths.ofInput s input).map)
    (hCode : (FileTree.parts (ArtifactPaths.ofInput s input).code).getLast? ≠ some name)
    (hMap : (FileTree.parts (ArtifactPaths.ofInput s input).map).getLast? = some name)
    (hRead : t.read input = .ok text)
    (hCompiled : Compiled.ofText s input (Path.fileName input) text = .ok compiled)
    (hSucceeded : ((compileFile s FileTree.access input).run t).1.succeeded = true) :
    ((compileFile s FileTree.access input).run t).2.read input =
      .ok (compiled.map.write s.prettyMap) := by
  have hKept := FileTree.read_write_of_ne hRead hName hCode compiled.code
  have hDone := (compileFile_tree hRead hCompiled).2 hSucceeded
  rw [(compileFile_tree hRead hCompiled).1]
  cases hWrite : (t.write (ArtifactPaths.ofInput s input).code compiled.code).1 with
  | error fault =>
      rw [(writeArtifacts_tree_error hWrite).1] at hDone
      cases hDone
  | ok u =>
      rw [writeArtifacts_tree hWrite]
      exact (FileTree.read_write_of_same hKept hName hSame hMap _).2

end Tree

/-! ## Sources that are spared -/

/-- Whether no source can be its own artifact: the artifacts stand beside their source, and
neither has the source extension, in whatever case. -/
def Settings.SparesSources (s : Settings) : Prop :=
  '/' ∉ s.targetExtension.toList ∧ '/' ∉ s.mapExtension.toList ∧
    s.targetExtension.toList.map Char.toLower ≠ s.sourceExtension.toList.map Char.toLower ∧
    (s.targetExtension ++ s.mapExtension).toList.map Char.toLower ≠
      s.sourceExtension.toList.map Char.toLower

instance (s : Settings) : Decidable s.SparesSources :=
  inferInstanceAs (Decidable (_ ∧ _))

theorem not_givesBack {sourceExtension extension name : String}
    (hSlash : '/' ∉ extension.toList)
    (hOther : extension.toList.map Char.toLower ≠ sourceExtension.toList.map Char.toLower) :
    ¬ GivesBack sourceExtension extension name := by
  rintro ⟨stem, first, rest, -, -, hLower, hParts, -⟩
  rw [Text.split_of_not_mem hSlash, List.cons.injEq] at hParts
  rw [← hParts.1] at hLower
  exact hOther hLower

/-- How a source with a name stands to its two artifacts. -/
structure SourceAndArtifacts (s : Settings) (input name : String) : Prop where
  is_code_iff : Path.Same input (ArtifactPaths.ofInput s input).code ↔
    GivesBack s.sourceExtension s.targetExtension name
  is_map_iff : Path.Same input (ArtifactPaths.ofInput s input).map ↔
    GivesBack s.sourceExtension (s.targetExtension ++ s.mapExtension) name
  /-- The two artifacts are one path only if the extension of the source map is idle. -/
  one_artifact_iff :
    Path.Same (ArtifactPaths.ofInput s input).code (ArtifactPaths.ofInput s input).map ↔
      s.targetExtension.toList.getLast? = some '/' ∧
        ∀ part ∈ Text.split '/' s.mapExtension.toList, Path.isSignificant part = false
  /-- A source that is none of its artifacts holds what it held before it was compiled. -/
  unchanged : '/' ∉ s.targetExtension.toList → '/' ∉ s.mapExtension.toList →
    ¬ Path.Same input (ArtifactPaths.ofInput s input).code →
    ¬ Path.Same input (ArtifactPaths.ofInput s input).map → ∀ t : FileTree,
      ((compileFile s FileTree.access input).run t).2.read input = t.read input
  /-- A source that is its own code or its own source map is lost when it is compiled. -/
  overwritten : '/' ∉ s.targetExtension.toList → '/' ∉ s.mapExtension.toList →
    ∀ (t : FileTree) (text : String) (compiled : Compiled), t.read input = .ok text →
      Compiled.ofText s input name text = .ok compiled →
      (Path.Same input (ArtifactPaths.ofInput s input).code →
        ((compileFile s FileTree.access input).run t).2.read input = .ok compiled.code) ∧
      (Path.Same input (ArtifactPaths.ofInput s input).map →
        ((compileFile s FileTree.access input).run t).1.succeeded = true →
        ((compileFile s FileTree.access input).run t).2.read input =
          .ok (compiled.map.write s.prettyMap))
  /-- With settings that spare sources, all three are different paths. -/
  different : s.SparesSources → ¬ Path.Same input (ArtifactPaths.ofInput s input).code ∧
    ¬ Path.Same input (ArtifactPaths.ofInput s input).map ∧
    ¬ Path.Same (ArtifactPaths.ofInput s input).code (ArtifactPaths.ofInput s input).map

/-- A source is spared by settings that pass the check, unless an extension gives its own name
back, or leads out of its directory by a slash. -/
theorem artifacts_spare_input {s : Settings} (hCheck : s.check = .ok ()) {input name : String}
    (hName : Path.fileName? input = some name) : SourceAndArtifacts s input name := by
  obtain ⟨-, hTarget, hMap, -⟩ := s.faults_eq_nil_iff.1 (s.check_eq_ok_iff.1 hCheck)
  have hBoth := isExtension_append hTarget s.mapExtension
  have hIsCode := same_artifactWith_iff s.sourceExtension hName hTarget
  have hIsMap := same_artifactWith_iff s.sourceExtension hName hBoth
  have hOne := artifactWith_same_append_iff s.sourceExtension hName hTarget hMap
  have hCodeLast := same_artifactWith_iff_getLast? s.sourceExtension hName hTarget
  have hMapLast := same_artifactWith_iff_getLast? s.sourceExtension hName hBoth
  rw [← ArtifactPaths.ofInput_code] at hIsCode hOne hCodeLast
  rw [← ArtifactPaths.ofInput_map] at hIsMap hOne hMapLast
  have hNoSlash (hTargetSlash : '/' ∉ s.targetExtension.toList)
      (hMapSlash : '/' ∉ s.mapExtension.toList) :
      '/' ∉ (s.targetExtension ++ s.mapExtension).toList := by
    rw [String.toList_append, List.mem_append, not_or]
    exact ⟨hTargetSlash, hMapSlash⟩
  have hTwo (hTargetSlash : '/' ∉ s.targetExtension.toList) :
      ¬ Path.Same (ArtifactPaths.ofInput s input).code (ArtifactPaths.ofInput s input).map := by
    rw [hOne]
    exact fun h => hTargetSlash (List.mem_of_getLast? h.1)
  refine ⟨hIsCode, hIsMap, hOne, ?_, ?_, ?_⟩
  · intro hTargetSlash hMapSlash hNotCode hNotMap t
    rw [hCodeLast hTargetSlash] at hNotCode
    rw [hMapLast (hNoSlash hTargetSlash hMapSlash)] at hNotMap
    exact read_compileFile hName hNotCode hNotMap t
  · intro hTargetSlash hMapSlash t text compiled hRead hCompiled
    have hFile : Path.fileName input = name := by rw [Path.fileName, hName, Option.getD_some]
    rw [← hFile] at hCompiled
    have hMapLast := hMapLast (hNoSlash hTargetSlash hMapSlash)
    refine ⟨?_, ?_⟩
    · intro hSame
      refine read_compileFile_of_code hName hSame ((hCodeLast hTargetSlash).1 hSame) ?_ hRead
        hCompiled
      rw [Ne, ← hMapLast]
      exact fun hSame' => hTwo hTargetSlash (hSame.symm.trans hSame')
    · intro hSame
      refine read_compileFile_of_map hName hSame ?_ (hMapLast.1 hSame) hRead hCompiled
      rw [Ne, ← hCodeLast hTargetSlash]
      exact fun hSame' => hTwo hTargetSlash (hSame'.symm.trans hSame)
  · rintro ⟨hTargetSlash, hMapSlash, hTargetOther, hBothOther⟩
    refine ⟨?_, ?_, hTwo hTargetSlash⟩
    · rw [hIsCode]
      exact not_givesBack hTargetSlash hTargetOther
    · rw [hIsMap]
      exact not_givesBack (hNoSlash hTargetSlash hMapSlash) hBothOther

/-- A source in a directory is as it was, beside the artifacts that were written. -/
theorem artifacts_spare_input_sample :
    let t : FileTree := ⟨[(["d", "a.RPN"], .text "1 2 +")], []⟩
    let after := ((compileFile {} FileTree.access "d//a.RPN").run t).2
    ¬ Path.Same "d//a.RPN" (ArtifactPaths.ofInput {} "d//a.RPN").code ∧
      after.read "d//a.RPN" = .ok "1 2 +" ∧ (after.read "d/a.js").isOk = true := by
  intro t after
  have hCheck : Settings.check {} = .ok () := by decide +kernel
  have hName : Path.fileName? "d//a.RPN" = some "a.RPN" := by decide +kernel
  have hSource := artifacts_spare_input hCheck hName
  have hPaths := hSource.different (by decide +kernel)
  have hRead : t.read "d//a.RPN" = .ok "1 2 +" := by decide +kernel
  have hUnchanged := hSource.unchanged (by decide +kernel) (by decide +kernel) hPaths.1 hPaths.2.1 t
  exact ⟨hPaths.1, hUnchanged.trans hRead, by decide +kernel⟩

/-- With the same extension for sources and code, a source is overwritten with its code. -/
theorem source_is_overwritten :
    let s : Settings := { sourceExtension := ".js" }
    let t : FileTree := ⟨[(["a.js"], .text "1 2 +")], []⟩
    s.check = .ok () ∧ Path.fileName? "a.js" = some "a.js" ∧
      (ArtifactPaths.ofInput s "a.js").code = "a.js" ∧ t.read "a.js" = .ok "1 2 +" ∧
      ((compileFile s FileTree.access "a.js").run t).2.read "a.js" ≠ .ok "1 2 +" := by
  decide +kernel

end ReversePolish

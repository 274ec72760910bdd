import ReversePolish.Proofs.CodeReading
import ReversePolish.Proofs.FailureTrace
import ReversePolish.Proofs.JsonRoundTrip
import ReversePolish.Proofs.TableRoundTrip

/-!
# What artifacts say about files

The code of a source ends with a comment that names its source map, and the source map names the
file of the code.  These names are not taken from the paths to which the two are written.  They
are made from the source's bare file name, and the paths from the whole path of the source.  The
two ways agree, as long as no slash in an extension leads out of the source's directory.

A source map also names its sources, and can hold their texts.  Sources are listed as the table
uses them, and the text is listed without regard to the table.  So the two lists line up unless
the table is empty, and it is empty for the empty source only.

## Main results

* `isStem_iff` — what is left of a name without an extension.
* `artifactWith_beside` — an artifact stands beside its source, under its own name.
* `artifacts_name_each_other` — the code and the source map that are written name each other.
* `embedded_texts` — the texts of sources line up with the sources, except for an empty source.
-/

namespace ReversePolish

/-! ## Names beside a source -/

/-- What is left of a name when an extension is taken off it.  The case of the extension does not
matter, and something has to be left in front of it.  A name without such an end is kept. -/
inductive IsStem (name extension : String) : String → Prop where
  | taken {stem tail : String} (hStem : stem ≠ "") (hName : name = stem ++ tail)
      (hTail : tail.toList.map Char.toLower = extension.toList.map Char.toLower) :
      IsStem name extension stem
  | kept (hOther : ∀ stem tail : String, stem ≠ "" → name = stem ++ tail →
      tail.toList.map Char.toLower ≠ extension.toList.map Char.toLower) :
      IsStem name extension name

theorem withoutExtension_eq_stem {name extension stem tail : String} (hStem : stem ≠ "")
    (hName : name = stem ++ tail)
    (hTail : tail.toList.map Char.toLower = extension.toList.map Char.toLower) :
    withoutExtension name extension = stem := by
  have hSome : stem.toList ≠ [] := by simpa using hStem
  have hChars : name.toList = stem.toList ++ tail.toList := by rw [hName, String.toList_append]
  exact String.toList_inj.1 (withoutExtension_append hSome hChars hTail)

theorem withoutExtension_isStem (name extension : String) :
    IsStem name extension (withoutExtension name extension) := by
  by_cases hEnds : ∃ stem tail : String, stem ≠ "" ∧ name = stem ++ tail ∧
      tail.toList.map Char.toLower = extension.toList.map Char.toLower
  · obtain ⟨stem, tail, hStem, hName, hTail⟩ := hEnds
    rw [withoutExtension_eq_stem hStem hName hTail]
    exact .taken hStem hName hTail
  · rcases withoutExtension_cases name extension with hKept | ⟨hSome, tail, hName, hTail⟩
    · rw [hKept]
      exact .kept fun stem tail hStem hName hTail => hEnds ⟨stem, tail, hStem, hName, hTail⟩
    · refine absurd ⟨withoutExtension name extension, String.ofList tail, ?_, ?_, ?_⟩ hEnds
      · simpa using hSome
      · rw [← String.toList_inj, String.toList_append, String.toList_ofList, ← hName]
      · rw [String.toList_ofList, hTail]

/-- There is only one way to take an extension off a name. -/
theorem isStem_iff {name extension stem : String} :
    IsStem name extension stem ↔ stem = withoutExtension name extension := by
  constructor
  · intro h
    cases h with
    | taken hStem hName hTail => exact (withoutExtension_eq_stem hStem hName hTail).symm
    | kept hOther =>
        have hWithout := withoutExtension_isStem name extension
        generalize withoutExtension name extension = stem at hWithout
        cases hWithout with
        | taken hStem hName hTail => exact absurd hTail (hOther _ _ hStem hName)
        | kept => rfl
  · rintro rfl
    exact withoutExtension_isStem name extension

/-- A path to a file of the given name in the directory of another file. -/
structure Beside (input name path : String) : Prop where
  fileName : Path.fileName? path = some name
  parent : Path.parent? path = Path.parent? input

/-- An artifact with an extension without slashes stands beside its source. -/
theorem artifactWith_beside (sourceExtension : String) {extension input name : String}
    (hName : Path.fileName? input = some name)
    (hExtension : Settings.isExtension extension = true) (hSlash : '/' ∉ extension.toList) :
    Beside input (withoutExtension name sourceExtension ++ extension)
      (artifactWith sourceExtension input extension) := by
  obtain ⟨hStem, hStemSlash⟩ := withoutExtension_stem sourceExtension hName
  obtain ⟨c, cs, hChars⟩ := exists_of_isExtension hExtension
  have hText : (withoutExtension name sourceExtension ++ extension).toList =
      (withoutExtension name sourceExtension).toList ++ '.' :: c :: cs := by
    rw [String.toList_append, hChars]
  have hSignificant :
      Path.isSignificant (withoutExtension name sourceExtension ++ extension).toList = true := by
    rw [hText]
    exact Path.isSignificant_append hStem '.' (c :: cs)
  have hPlain : '/' ∉ (withoutExtension name sourceExtension ++ extension).toList := by
    rw [String.toList_append, List.mem_append, not_or]
    exact ⟨hStemSlash, hSlash⟩
  -- An extension has two characters at least, and one more stands in front of it.
  have hUp : (withoutExtension name sourceExtension ++ extension).toList ≠ ['.', '.'] := by
    intro hUp
    have hLength := congrArg List.length (hText.symm.trans hUp)
    have hPositive := List.length_pos_iff.2 hStem
    simp only [List.length_append, List.length_cons, List.length_nil] at hLength
    omega
  rw [artifactWith, Path.fileName, hName, Option.getD_some]
  exact ⟨Path.fileName?_join _ hSignificant hPlain hUp, Path.parent?_join hName hSignificant hPlain⟩

/-! ## The code and its source map -/

/-- Whether the code names the file of the source map at its end, and the text of the source map
is read as one that names the file of the code. -/
structure NameEachOther (codeName mapName code map : String) : Prop where
  code_names_map : ∃ front, code = front ++ ("\n//# sourceMappingURL=" ++ mapName ++ "\n")
  map_names_code : ∃ m, SourceMap.read map = .ok m ∧ m.file = codeName

/-- The code of a forest ends with the name of the source map, and the source map is read with
the name of the code. -/
theorem Compiled.ofForest_nameEachOther (s : Settings) (source text : String) (forest : Forest) :
    NameEachOther (Path.fileName (ArtifactPaths.ofInput s source).code)
      (Path.fileName (ArtifactPaths.ofInput s source).map) (ofForest s source text forest).code
      ((ofForest s source text forest).map.write s.prettyMap) := by
  refine ⟨⟨_, rfl⟩, (ofForest s source text forest).map, ?_, ?_⟩
  · have hVersion : (ofForest s source text forest).map.version = SourceMap.supportedVersion := by
      rw [ofForest_map_eq, SourceMap.ofMappings]
    rw [SourceMap.read, SourceMap.ofJson?_read?_write _ _ (by rw [hVersion]; decide)]
    exact if_pos hVersion
  · rw [ofForest_map_eq, SourceMap.ofMappings]

/-- Extensions without slashes leave both artifacts beside the source. -/
theorem ArtifactPaths.ofInput_beside {s : Settings} (hCheck : s.check = .ok ())
    (hTarget : '/' ∉ s.targetExtension.toList) (hMap : '/' ∉ s.mapExtension.toList)
    {input name : String} (hName : Path.fileName? input = some name) :
    Beside input (withoutExtension name s.sourceExtension ++ s.targetExtension)
        (ofInput s input).code ∧
      Beside input (withoutExtension name s.sourceExtension ++ s.targetExtension ++ s.mapExtension)
        (ofInput s input).map := by
  obtain ⟨-, hTargetPoint, -, -⟩ := s.faults_eq_nil_iff.1 (s.check_eq_ok_iff.1 hCheck)
  have hBothPoint := isExtension_append hTargetPoint s.mapExtension
  have hBoth : '/' ∉ (s.targetExtension ++ s.mapExtension).toList := by
    rw [String.toList_append, List.mem_append, not_or]
    exact ⟨hTarget, hMap⟩
  rw [ofInput_code, ofInput_map, String.append_assoc]
  exact ⟨artifactWith_beside _ hName hTargetPoint hTarget,
    artifactWith_beside _ hName hBothPoint hBoth⟩

/-- The names in the two texts are those of the artifacts, although they are made from the bare
file name: it is its own file name, so that the artifacts of both paths are called the same. -/
theorem Compiled.ofText_nameEachOther {s : Settings} (hCheck : s.check = .ok ())
    (hTarget : '/' ∉ s.targetExtension.toList) (hMap : '/' ∉ s.mapExtension.toList)
    {input name text : String} {compiled : Compiled} (hName : Path.fileName? input = some name)
    (hText : ofText s input (Path.fileName input) text = .ok compiled) :
    NameEachOther (withoutExtension name s.sourceExtension ++ s.targetExtension)
      (withoutExtension name s.sourceExtension ++ s.targetExtension ++ s.mapExtension)
      compiled.code (compiled.map.write s.prettyMap) := by
  have hFile : Path.fileName input = name := by rw [Path.fileName, hName, Option.getD_some]
  obtain ⟨hCodeBeside, hMapBeside⟩ :=
    ArtifactPaths.ofInput_beside hCheck hTarget hMap (Path.fileName?_fileName hName)
  rw [hFile, ofText] at hText
  split at hText
  · next forest _ =>
      cases hText
      have hNamed := ofForest_nameEachOther s name text forest
      rw [Path.fileName, hCodeBeside.fileName, Path.fileName, hMapBeside.fileName] at hNamed
      exact hNamed
  · cases hText

/-- **The artifacts of a file name each other.**  With settings that pass the check and extensions
without slashes, both artifacts of a file stand in its directory.  The name of the code is what is
left of the file's name without the source extension, and then the extension of code; the name of
the source map is that and one extension more.  A file that is compiled without a failure has been
read, then its code has been written to the one path and its source map to the other, and nothing
else.  The code that is written ends with the comment that names the file of the source map, and
the text of the source map is read as one that names the file of the code.  The same holds of the
two texts when the code has been written and the source map is refused. -/
theorem artifacts_name_each_other {s : Settings} (hCheck : s.check = .ok ())
    (hTarget : '/' ∉ s.targetExtension.toList) (hMap : '/' ∉ s.mapExtension.toList)
    {input name : String} (hName : Path.fileName? input = some name) :
    ∃ stem, IsStem name s.sourceExtension stem ∧
      Beside input (stem ++ s.targetExtension) (ArtifactPaths.ofInput s input).code ∧
      Beside input (stem ++ s.targetExtension ++ s.mapExtension)
        (ArtifactPaths.ofInput s input).map ∧
      ∀ {σ : Type} (files : FileAccess (StateM σ)) (before : σ),
        (∀ a, ((compileFile s files input).run before).1.result = .ok a →
          a.paths = ArtifactPaths.ofInput s input ∧ ∃ text code map opened between,
            (files.read input).run before = (.ok text, opened) ∧
            (files.write a.paths.code code).run opened = (.ok (), between) ∧
            (files.write a.paths.map map).run between =
              (.ok (), ((compileFile s files input).run before).2) ∧
            NameEachOther (stem ++ s.targetExtension)
              (stem ++ s.targetExtension ++ s.mapExtension) code map) ∧
        ∀ compiled between fault, MapRefused s files input before compiled between fault →
          NameEachOther (stem ++ s.targetExtension) (stem ++ s.targetExtension ++ s.mapExtension)
            compiled.code (compiled.map.write s.prettyMap) := by
  obtain ⟨hCodeBeside, hMapBeside⟩ := ArtifactPaths.ofInput_beside hCheck hTarget hMap hName
  refine ⟨_, withoutExtension_isStem name s.sourceExtension, hCodeBeside, hMapBeside,
    fun files before => ⟨?_, ?_⟩⟩
  · intro a hResult
    have hRun := compileFile_fileRun s files input before
    generalize (compileFile s files input).run before = run at hRun hResult
    obtain ⟨outcome, after⟩ := run
    cases hRun with
    | unread => cases hResult
    | notCompiled => cases hResult
    | codeRefused => cases hResult
    | mapRefused => cases hResult
    | written hRead hText hCodeWritten hMapWritten =>
        cases hResult
        exact ⟨rfl, _, _, _, _, _, hRead, hCodeWritten, hMapWritten,
          Compiled.ofText_nameEachOther hCheck hTarget hMap hName hText⟩
  · rintro compiled between fault ⟨⟨text, opened, -, hText, -⟩, -⟩
    exact Compiled.ofText_nameEachOther hCheck hTarget hMap hName hText

/-- A file in a directory, with another letter than those of ASCII in its name and the extension
in capitals. -/
theorem artifacts_name_each_other_sample :
    let input := "./d//A.é.RPN"
    let t : FileTree := ⟨[(["d", "A.é.RPN"], .text "1 2 +")], []⟩
    let run := (compileFile {} FileTree.access input).run t
    Settings.check {} = .ok () ∧ Path.fileName? input = some "A.é.RPN" ∧
      ∃ a, run.1.result = .ok a ∧ Beside input "A.é.js" a.paths.code ∧
        Beside input "A.é.js.map" a.paths.map ∧ ∃ code map between,
          (FileTree.access.write a.paths.map map).run between = (.ok (), run.2) ∧
            NameEachOther "A.é.js" "A.é.js.map" code map := by
  intro input t run
  have hCheck : Settings.check {} = .ok () := by decide +kernel
  have hName : Path.fileName? input = some "A.é.RPN" := by decide +kernel
  have hAny : run.1.result.toOption.any (fun _ => true) = true := by decide +kernel
  obtain ⟨stem, hStem, hCode, hMap, hFiles⟩ :=
    artifacts_name_each_other hCheck (by decide +kernel) (by decide +kernel) hName
  obtain rfl : stem = "A.é" := (isStem_iff.1 hStem).trans (by decide +kernel)
  obtain ⟨a, hResult, _⟩ := exists_ok_of_any hAny
  obtain ⟨hPaths, _, code, map, _, between, _, _, hWrite, hNamed⟩ :=
    (hFiles FileTree.access t).1 a hResult
  rw [← hPaths] at hCode hMap
  exact ⟨hCheck, hName, a, hResult, hCode, hMap, code, map, between, hWrite, hNamed⟩

/-! ## The texts of sources -/

/-- A list that uses one text only has this text as its only one. -/
theorem SourceMap.distinct_eq_singleton {texts : List String} {text : String}
    (hAll : ∀ other ∈ texts, other = text) (hSome : texts ≠ []) : distinct texts = [text] := by
  have hUses := distinct_firstUses texts
  obtain ⟨first, rest, hTexts⟩ := List.exists_cons_of_ne_nil hSome
  have hMem : text ∈ texts := by
    have hFirst : first ∈ texts := by simp [hTexts]
    exact hAll first hFirst ▸ hFirst
  refine List.perm_singleton.1 ((List.perm_ext_iff_of_nodup hUses.nodup
    (List.nodup_singleton text)).2 fun other => ?_)
  rw [hUses.mem_iff, List.mem_singleton]
  exact ⟨hAll other, fun hOther => hOther ▸ hMem⟩

theorem termsOf_eq_nil_iff {source : String} (hBlank : ¬ IsBlank source) :
    termsOf source = [] ↔ source = "" := by
  rw [termsOf, Scanner.remaining_eq_nil_iff]
  constructor
  · intro hAll
    by_contra hSome
    exact hBlank ⟨hSome, hAll⟩
  · rintro rfl c hMem
    cases hMem

/-- Sentences have terms, and at least the last value of each stands for a call. -/
theorem Written.script_eq_nil_iff {σs : List Sentence} {ts : List Term} (h : Written σs ts) :
    σs.flatMap Sentence.script = [] ↔ ts = [] := by
  have hScript (σ : Sentence) : σ.script ≠ [] :=
    List.ne_nil_of_mem (Sentence.mem_script.2 (Or.inr (Or.inl ⟨rfl, rfl⟩)))
  cases h with
  | none => simp
  | last σ => simp [hScript σ, σ.terms_ne_nil]
  | line σ hStop hRest => simp [hScript σ]

section Compiled

variable {s : Settings} {name text : String} {c : Compiled}

/-- Only the empty source has an empty table. -/
theorem compile_table_eq_nil_iff (h : compile s name text = .ok c) :
    c.table = [] ↔ text = "" := by
  obtain ⟨_, forest, hForest, _⟩ := compile_eq_ok h
  obtain ⟨hBlank, _⟩ := ofSource_eq_ok_iff.1 hForest
  obtain ⟨σs, hWritten, _, _, hTable⟩ := compile_eq_script h
  rw [← termsOf_eq_nil_iff hBlank, ← hWritten.script_eq_nil_iff, hTable, Call.table,
    List.mapIdx_eq_nil_iff, List.map_eq_nil_iff]

/-- Every mapping of a table comes from the source that was compiled. -/
theorem compile_table_source (h : compile s name text = .ok c) :
    ∀ source ∈ c.table.map Mapping.source, source = name := by
  obtain ⟨σs, _, _, _, hTable⟩ := compile_eq_script h
  intro source hSource
  obtain ⟨m, hMem, rfl⟩ := List.mem_map.1 hSource
  rw [hTable] at hMem
  obtain ⟨i, _, rfl⟩ := List.mem_mapIdx.1 hMem
  rfl

/-- The source is listed unless it is empty. -/
theorem compile_map_sources (h : compile s name text = .ok c) :
    c.map.sources = if text = "" then [] else [name] := by
  have hEmpty := compile_table_eq_nil_iff h
  have hSources := compile_table_source h
  obtain ⟨_, forest, _, hForest⟩ := compile_eq_ok h
  have hMap : c.map.sources = SourceMap.distinct (c.table.map Mapping.source) := by
    rw [hForest, Compiled.ofForest_map_eq, SourceMap.ofMappings,
      SourceMap.distinct_withoutRepeats]
  rw [hMap]
  by_cases hText : text = ""
  · rw [if_pos hText, hEmpty.2 hText]
    rfl
  · rw [if_neg hText]
    refine SourceMap.distinct_eq_singleton hSources ?_
    rw [Ne, List.map_eq_nil_iff, hEmpty]
    exact hText

/-- The texts of a source map line up with its sources, `text` being that of the source `name`:
there are as many texts as sources, no other source is listed, and its text stands at its index. -/
def SourceMap.LinesUp (map : SourceMap) (name text : String) : Prop :=
  ∃ contents : List (Option String),
    map.sourcesContent = some contents ∧ contents.length = map.sources.length ∧
    ∀ (i : Nat) (source : String), map.sources[i]? = some source →
      source = name ∧ contents[i]? = some (some text)

/-- **Embedded texts line up with sources, unless the source is empty.**  When the texts of
sources are to be embedded, the source map of a compiled source holds its text.  The source itself
is listed because some mapping of the table comes from it, so it is missing exactly if the source
is empty.  Then there is a text without a source.  In all other cases there are one source and one
text, and the text is that of the source. -/
theorem embedded_texts (hEmbed : s.embedSources = true) (h : compile s name text = .ok c) :
    c.map.sourcesContent = some [some text] ∧
      c.map.sources = (if text = "" then [] else [name]) ∧
      (c.map.LinesUp name text ↔ text ≠ "") := by
  have hSources := compile_map_sources h
  have hContents : c.map.sourcesContent = some [some text] := by
    obtain ⟨_, forest, _, rfl⟩ := compile_eq_ok h
    rw [Compiled.ofForest_map_eq, if_pos hEmbed]
  refine ⟨hContents, hSources, ?_⟩
  rw [SourceMap.LinesUp, hContents, hSources]
  constructor
  · rintro ⟨contents, hSome, hLength, _⟩ rfl
    cases hSome
    cases hLength
  · intro hText
    rw [if_neg hText]
    refine ⟨_, rfl, rfl, ?_⟩
    intro i source hSource
    obtain ⟨rfl, rfl⟩ : i = 0 ∧ name = source := by simpa [List.getElem?_singleton] using hSource
    exact ⟨rfl, rfl⟩

end Compiled

/-- A source of one value on its second line is listed with its text. -/
theorem embedded_texts_sample :
    ∃ c, compile { embedSources := true } "p.rpn" "a b +\n1" = .ok c ∧
      c.map.LinesUp "p.rpn" "a b +\n1" := by
  have hAny : (compile { embedSources := true } "p.rpn" "a b +\n1").toOption.any
      (fun _ => true) = true := by decide +kernel
  obtain ⟨c, h, _⟩ := exists_ok_of_any hAny
  exact ⟨c, h, (embedded_texts rfl h).2.2.2 (by decide)⟩

/-- For an empty source, the text is listed and the source is not. -/
theorem empty_source_is_not_listed :
    ∃ c, compile { embedSources := true } "p.rpn" "" = .ok c ∧ c.map.sources = [] ∧
      c.map.sourcesContent = some [some ""] := by
  have hAny : (compile { embedSources := true } "p.rpn" "").toOption.any
      (fun c => decide (c.map.sources = [] ∧ c.map.sourcesContent = some [some ""])) = true := by
    decide +kernel
  obtain ⟨c, h, hHolds⟩ := exists_ok_of_any hAny
  exact ⟨c, h, of_decide_eq_true hHolds⟩

end ReversePolish

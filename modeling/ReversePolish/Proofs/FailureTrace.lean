import ReversePolish.Proofs.ArtifactPaths

/-!
# What a failure leaves behind

A file is read and compiled before anything is written, so a file that cannot be read or
compiled leaves nothing behind, and neither does one whose code cannot be written.  But the
code is written before the source map.  If the source map cannot be written then, the code
stays, beside a source map that is missing or that belongs to an older version.

How a file is compiled is said once for all kinds of files (`FileRun`), with one case for
each way to end.  What can be seen of the files afterwards follows for all files that reading
and a refused writing leave as they are (`FileAccess.Steady`), which disks and trees are.

## Main results

* `compileFile_fileRun` — the ways in which compiling a file ends.
* `FileAccess.Steady.failureTrace` — what is left behind by a file that fails.
* `failed_compilation_trace` — the same for disks and trees.
-/

namespace ReversePolish

/-! ## How a file is compiled -/

section Run

variable {σ β : Type} (s : Settings) (files : FileAccess (StateM σ)) (input : String)

/-- The source map of a file cannot be written, after the file has been read and compiled to
`compiled` and its code has been written, which led to the state `between`. -/
structure MapRefused (before : σ) (compiled : Compiled) (between : σ) (fault : FileFault) :
    Prop where
  code_written : ∃ text opened, (files.read input).run before = (.ok text, opened) ∧
    Compiled.ofText s input (Path.fileName input) text = .ok compiled ∧
    (files.write (ArtifactPaths.ofInput s input).code compiled.code).run opened =
      (.ok (), between)
  map_refused : ((files.write (ArtifactPaths.ofInput s input).map
    (compiled.map.write s.prettyMap)).run between).1 = .error fault

/-- The ways in which compiling a file ends, with the outcome and the state behind it. -/
inductive FileRun (before : σ) : FileOutcome → σ → Prop where
  | unread {fault : FileFault} {after : σ}
      (hRead : (files.read input).run before = (.error fault, after)) :
      FileRun before ⟨input, none, .error (.file input fault)⟩ after
  | notCompiled {text : String} {opened : σ} {fault : Fault}
      (hRead : (files.read input).run before = (.ok text, opened))
      (hText : Compiled.ofText s input (Path.fileName input) text = .error fault) :
      FileRun before ⟨input, some text, .error fault⟩ opened
  | codeRefused {text : String} {opened after : σ} {compiled : Compiled} {fault : FileFault}
      (hRead : (files.read input).run before = (.ok text, opened))
      (hText : Compiled.ofText s input (Path.fileName input) text = .ok compiled)
      (hCode : (files.write (ArtifactPaths.ofInput s input).code compiled.code).run opened =
        (.error fault, after)) :
      FileRun before
        ⟨input, some text, .error (.file (ArtifactPaths.ofInput s input).code fault)⟩ after
  | mapRefused {text : String} {between after : σ} {compiled : Compiled} {fault : FileFault}
      (hRefused : MapRefused s files input before compiled between fault)
      (hMap : (files.write (ArtifactPaths.ofInput s input).map
        (compiled.map.write s.prettyMap)).run between = (.error fault, after)) :
      FileRun before
        ⟨input, some text, .error (.file (ArtifactPaths.ofInput s input).map fault)⟩ after
  | written {text : String} {opened between after : σ} {compiled : Compiled}
      (hRead : (files.read input).run before = (.ok text, opened))
      (hText : Compiled.ofText s input (Path.fileName input) text = .ok compiled)
      (hCode : (files.write (ArtifactPaths.ofInput s input).code compiled.code).run opened =
        (.ok (), between))
      (hMap : (files.write (ArtifactPaths.ofInput s input).map
        (compiled.map.write s.prettyMap)).run between = (.ok (), after)) :
      FileRun before
        ⟨input, some text, .ok ⟨input, ArtifactPaths.ofInput s input, compiled.table.length⟩⟩
        after

/-- Once the code has been written, the source map decides. -/
theorem writeArtifacts_run_of_code {paths : ArtifactPaths} {compiled : Compiled}
    {opened between : σ}
    (hCode : (files.write paths.code compiled.code).run opened = (.ok (), between)) :
    (writeArtifacts s files paths compiled).run opened =
      (((files.write paths.map (compiled.map.write s.prettyMap)).run between).1.mapError
          (.file paths.map),
        ((files.write paths.map (compiled.map.write s.prettyMap)).run between).2) := by
  rcases hMap : (files.write paths.map (compiled.map.write s.prettyMap)).run between with
    ⟨fault | _, after⟩
  all_goals
    rw [writeArtifacts, run_bind_of_run hCode]
    dsimp only
    rw [run_bind_of_run hMap]
    rfl

/-- Compiling a file ends in one of these ways. -/
theorem compileFile_fileRun (before : σ) :
    FileRun s files input before ((compileFile s files input).run before).1
      ((compileFile s files input).run before).2 := by
  rcases hRead : (files.read input).run before with ⟨fault | text, opened⟩
  · rw [compileFile, run_bind_of_run hRead]
    exact .unread hRead
  · rw [compileFile, run_bind_of_run hRead]
    dsimp only
    cases hText : Compiled.ofText s input (Path.fileName input) text with
    | error fault => exact .notCompiled hRead hText
    | ok compiled =>
        dsimp only
        rcases hCode : (files.write (ArtifactPaths.ofInput s input).code compiled.code).run
          opened with ⟨fault | _, between⟩
        · have hWriting : (writeArtifacts s files (ArtifactPaths.ofInput s input) compiled).run
              opened = (.error (.file (ArtifactPaths.ofInput s input).code fault), between) := by
            rw [writeArtifacts, run_bind_of_run hCode]
            rfl
          rw [run_bind_of_run hWriting]
          exact .codeRefused hRead hText hCode
        · rw [run_bind_of_run (writeArtifacts_run_of_code s files hCode)]
          rcases hMap : (files.write (ArtifactPaths.ofInput s input).map
            (compiled.map.write s.prettyMap)).run between with ⟨fault | _, after⟩
          · exact .mapRefused ⟨⟨text, opened, hRead, hText, hCode⟩, by rw [hMap]⟩ hMap
          · exact .written hRead hText hCode hMap

/-- A file whose source map is refused fails, and is left when the source map has been
refused. -/
theorem MapRefused.compileFile_run {before between : σ} {compiled : Compiled}
    {fault : FileFault} (h : MapRefused s files input before compiled between fault) :
    ((compileFile s files input).run before).1.result =
        .error (.file (ArtifactPaths.ofInput s input).map fault) ∧
      ((compileFile s files input).run before).2 =
        ((files.write (ArtifactPaths.ofInput s input).map
          (compiled.map.write s.prettyMap)).run between).2 := by
  obtain ⟨⟨text, opened, hRead, hText, hCode⟩, hMap⟩ := h
  rw [compileFile, run_bind_of_run hRead]
  dsimp only
  rw [hText]
  dsimp only
  rw [run_bind_of_run (writeArtifacts_run_of_code s files hCode), hMap]
  exact ⟨rfl, rfl⟩

/-- What a file that fails leaves behind, of which `held` can be seen. -/
structure FailureTrace (held : σ → β) (before : σ) : Prop where
  /-- Nothing has changed, unless the code was written and the source map refused. -/
  unchanged_iff : ((compileFile s files input).run before).1.succeeded = false →
    (held ((compileFile s files input).run before).2 = held before ↔
      ∀ compiled between fault, MapRefused s files input before compiled between fault →
        held between = held before)
  /-- When the source map is refused, the file fails, and everything is as it was when the
  code had just been written. -/
  map_refused : ∀ compiled between fault,
    MapRefused s files input before compiled between fault →
      ((compileFile s files input).run before).1.result =
          .error (.file (ArtifactPaths.ofInput s input).map fault) ∧
        held ((compileFile s files input).run before).2 = held between

end Run

/-! ## Files that stay as they are -/

/-- Of these files one can see what they hold, and reading them changes nothing of it, nor
does a writing that is refused. -/
structure FileAccess.Steady {σ β : Type} (files : FileAccess (StateM σ)) (held : σ → β) :
    Prop where
  read : ∀ path state, held ((files.read path).run state).2 = held state
  refused : ∀ path text state fault, ((files.write path text).run state).1 = .error fault →
    held ((files.write path text).run state).2 = held state

theorem Disk.access_steady (rights : Rights) : (Disk.access rights).Steady Disk.files := by
  refine ⟨fun path d => rfl, ?_⟩
  intro path text d fault h
  cases hRights : rights.unwritable path with
  | none =>
      rw [Disk.access_write_allowed hRights] at h
      cases h
  | some fault' =>
      rw [Disk.access_write_refused hRights]
      rfl

/-- A tree that refuses a text is the same as before. -/
theorem FileTree.write_eq_of_error {t : FileTree} {path text : String} {fault : FileFault}
    (h : (t.write path text).1 = .error fault) : (t.write path text).2 = t := by
  rcases FileTree.write_cases t path text with hSame | ⟨names, name, _, _, _, hWrite⟩
  · exact hSame
  · rw [hWrite] at h
    cases h

theorem FileTree.access_steady : FileTree.access.Steady id :=
  ⟨fun _ _ => rfl, fun _ _ _ _ h => write_eq_of_error h⟩

/-- What a failing file leaves behind in files that stay as they are. -/
theorem FileAccess.Steady.failureTrace {σ β : Type} {files : FileAccess (StateM σ)}
    {held : σ → β} (h : files.Steady held) (s : Settings) (input : String) (before : σ) :
    FailureTrace s files input held before := by
  have hKept {path : String} {result : Except FileFault String} {state after : σ}
      (hRead : (files.read path).run state = (result, after)) : held after = held state := by
    have hSame := h.read path state
    rwa [hRead] at hSame
  have hRefusedKept {path text : String} {fault : FileFault} {state after : σ}
      (hWrite : (files.write path text).run state = (.error fault, after)) :
      held after = held state := by
    have hSame := h.refused path text state fault (by rw [hWrite])
    rwa [hWrite] at hSame
  have hMapRefused : ∀ compiled between fault,
      MapRefused s files input before compiled between fault →
        held ((compileFile s files input).run before).2 = held between := by
    intro compiled between fault hRefused
    rw [(hRefused.compileFile_run).2]
    exact h.refused _ _ _ _ hRefused.map_refused
  refine ⟨fun hFailed => ⟨?_, ?_⟩, ?_⟩
  · intro hSame compiled between fault hRefused
    rw [← hMapRefused compiled between fault hRefused, hSame]
  · intro hBetween
    have hRun := compileFile_fileRun s files input before
    generalize (compileFile s files input).run before = run at hRun hFailed
    obtain ⟨outcome, after⟩ := run
    cases hRun with
    | unread hRead => exact hKept hRead
    | notCompiled hRead _ => exact hKept hRead
    | codeRefused hRead _ hCode => exact (hRefusedKept hCode).trans (hKept hRead)
    | mapRefused hRefused hMap => exact (hRefusedKept hMap).trans (hBetween _ _ _ hRefused)
    | written => cases hFailed
  · intro compiled between fault hRefused
    exact ⟨hRefused.compileFile_run.1, hMapRefused compiled between fault hRefused⟩

/-- On a disk, the code that stays is new, and the source map beside it is what it was. -/
theorem MapRefused.disk {s : Settings} {rights : Rights} {input : String} {d between : Disk}
    {compiled : Compiled} {fault : FileFault}
    (h : MapRefused s (Disk.access rights) input d compiled between fault) :
    between.files = Function.update d.files (ArtifactPaths.ofInput s input).code
        (some (.text compiled.code)) ∧
      between.files (ArtifactPaths.ofInput s input).map =
        d.files (ArtifactPaths.ofInput s input).map := by
  obtain ⟨⟨text, opened, hRead, hText, hCode⟩, hMap⟩ := h
  have hOpened : opened = d.touch input := (Prod.mk.inj hRead).2.symm
  cases hCodeRights : rights.unwritable (ArtifactPaths.ofInput s input).code with
  | some fault' =>
      rw [Disk.access_write_refused hCodeRights] at hCode
      cases hCode
  | none =>
      cases hMapRights : rights.unwritable (ArtifactPaths.ofInput s input).map with
      | none =>
          rw [Disk.access_write_allowed hMapRights] at hMap
          cases hMap
      | some fault' =>
          -- one path can be written and the other cannot, so they are not the same
          have hApart : (ArtifactPaths.ofInput s input).map ≠
              (ArtifactPaths.ofInput s input).code := by
            intro hSame
            rw [hSame, hCodeRights] at hMapRights
            cases hMapRights
          rw [Disk.access_write_allowed hCodeRights, hOpened] at hCode
          have hFiles : between.files = Function.update d.files
              (ArtifactPaths.ofInput s input).code (some (.text compiled.code)) := by
            rw [← (Prod.mk.inj hCode).2]
            rfl
          exact ⟨hFiles, by rw [hFiles, Function.update_of_ne hApart]⟩

/-! ## Disks and trees -/

/-- **What a failed compilation leaves behind.**  On every disk and in every tree of files, a
file that fails has changed nothing, unless it could be read and compiled and its code could be
written, but not its source map.  Then the failure names the source map, and what has changed
is what writing the code has changed: on a disk the path of the code holds the new code, and
every other path, that of the source map included, holds what it held before. -/
theorem failed_compilation_trace (s : Settings) (input : String) :
    (∀ (rights : Rights) (d : Disk),
      FailureTrace s (Disk.access rights) input Disk.files d ∧
      ∀ compiled between fault,
        MapRefused s (Disk.access rights) input d compiled between fault →
          between.files = Function.update d.files (ArtifactPaths.ofInput s input).code
              (some (.text compiled.code)) ∧
            between.files (ArtifactPaths.ofInput s input).map =
              d.files (ArtifactPaths.ofInput s input).map) ∧
    ∀ t : FileTree, FailureTrace s FileTree.access input id t := by
  refine ⟨fun rights d => ⟨?_, fun compiled between fault => MapRefused.disk⟩, ?_⟩
  · exact (Disk.access_steady rights).failureTrace s input d
  · exact FileTree.access_steady.failureTrace s input

/-- Where a directory stands in the place of the source map, a file fails and leaves new code
behind. -/
theorem code_is_left_behind :
    let t : FileTree := ⟨[(["a.rpn"], .text "1 2 +")], [["a.js.map"]]⟩
    let run := (compileFile {} FileTree.access "a.rpn").run t
    Settings.check {} = .ok () ∧ run.1.succeeded = false ∧
      t.read "a.js" = .error .missing ∧ (run.2.read "a.js").isOk = true ∧
      run.2.read "a.js.map" = .error .isDirectory := by
  decide +kernel

end ReversePolish

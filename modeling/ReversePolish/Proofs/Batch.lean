import Mathlib.Data.List.Perm.Basic
import Mathlib.Logic.Function.Basic
import ReversePolish.Compilation.Batch
import ReversePolish.Files.Tree

/-!
# What a batch does to files

A batch is compiled on a *disk*: a partial map from paths to contents, on which reading and
writing may fail at some paths.  The disk also remembers which paths it was asked for.

What compiling one file does is settled once the file has been read.  It gives an outcome,
asks for some paths, and writes some of its artifacts (`fileEffect`).  So it changes nothing but
its artifacts, and it depends on the disk only by what its own file holds.  Two files whose
artifacts are apart can therefore be compiled in either order.

## Main results

* `compileFile_run` — one file is compiled by its effect.
* `compileFiles_run` — a batch compiles the files that it processes, one after the other.
* `compileEach_perm` — the order of files that are apart does not matter.
* `batch_accounts_for_inputs` — the report of a batch, its stop, its changes and its order.
-/

namespace ReversePolish

/-! ## Disks -/

/-- The paths at which reading or writing fails, with the fault. -/
structure Rights where
  unreadable : String → Option FileFault
  unwritable : String → Option FileFault

/-- Files by the texts of their paths, of which two may stand for one path. -/
structure Disk where
  files : String → Option Content
  /-- The paths that were to be read or written, in order. -/
  touched : List String

namespace Disk

def touch (d : Disk) (path : String) : Disk :=
  { d with touched := d.touched ++ [path] }

/-- What reading a path gives. -/
def read (rights : Rights) (files : String → Option Content) (path : String) :
    Except FileFault String :=
  match rights.unreadable path with
  | some fault => .error fault
  | none =>
    match files path with
    | none => .error .missing
    | some (.text content) => .ok content
    | some (.bytes _) => .error .notText

def write (rights : Rights) (d : Disk) (path text : String) : Except FileFault Unit × Disk :=
  match rights.unwritable path with
  | some fault => (.error fault, d)
  | none => (.ok (), { d with files := Function.update d.files path (some (.text text)) })

/-- A disk as files that can be read and written. -/
def access (rights : Rights) : FileAccess (StateM Disk) where
  read path := modifyGet fun d => (read rights d.files path, d.touch path)
  write path text := modifyGet fun d => (d.touch path).write rights path text

end Disk

/-! ## One file -/

/-- What some work does: what it results in, the paths that it asks for, and what it writes to
which paths. -/
structure Effect (α : Type) where
  result : α
  touched : List String
  written : List (String × String)

/-- What writing the code and then the source map does. -/
def writeEffect (s : Settings) (rights : Rights) (paths : ArtifactPaths) (compiled : Compiled) :
    Effect (Except Fault Unit) :=
  match rights.unwritable paths.code with
  | some fault => ⟨.error (.file paths.code fault), [paths.code], []⟩
  | none =>
    match rights.unwritable paths.map with
    | some fault =>
      ⟨.error (.file paths.map fault), [paths.code, paths.map], [(paths.code, compiled.code)]⟩
    | none =>
      ⟨.ok (), [paths.code, paths.map],
        [(paths.code, compiled.code), (paths.map, compiled.map.write s.prettyMap)]⟩

/-- What compiling a file does, once it is known what reading it gives. -/
def fileEffect (s : Settings) (rights : Rights) (input : String)
    (read : Except FileFault String) : Effect FileOutcome :=
  match read with
  | .error fault => ⟨⟨input, none, .error (.file input fault)⟩, [input], []⟩
  | .ok text =>
    match Compiled.ofText s input (Path.fileName input) text with
    | .error fault => ⟨⟨input, some text, .error fault⟩, [input], []⟩
    | .ok compiled =>
      let paths := ArtifactPaths.ofInput s input
      let writing := writeEffect s rights paths compiled
      ⟨⟨input, some text, writing.result.map fun _ => ⟨input, paths, compiled.table.length⟩⟩,
        input :: writing.touched, writing.written⟩

/-- What compiling a file does on a disk. -/
def Disk.effect (s : Settings) (rights : Rights) (d : Disk) (input : String) :
    Effect FileOutcome :=
  fileEffect s rights input (Disk.read rights d.files input)

/-- The files after texts have been written to paths. -/
def withWritten (files : String → Option Content) :
    (written : List (String × String)) → String → Option Content
  | [] => files
  | (path, text) :: written => withWritten (Function.update files path (some (.text text))) written

/-- The disk behind some work. -/
def Disk.after {α : Type} (d : Disk) (e : Effect α) : Disk :=
  ⟨withWritten d.files e.written, d.touched ++ e.touched⟩

/-- Work goes on with the result of the work before, and with what that left behind. -/
theorem run_bind_of_run {σ α β : Type} {x : StateM σ α} {d d' : σ} {a : α}
    (h : x.run d = (a, d')) (next : α → StateM σ β) :
    (x >>= next).run d = (next a).run d' := by
  show (next (x.run d).1).run (x.run d).2 = (next a).run d'
  rw [h]

theorem Disk.access_write_refused {rights : Rights} {path : String} {fault : FileFault}
    (h : rights.unwritable path = some fault) (text : String) (d : Disk) :
    ((Disk.access rights).write path text).run d = (.error fault, d.touch path) := by
  show Disk.write rights (d.touch path) path text = _
  rw [Disk.write, h]

theorem Disk.access_write_allowed {rights : Rights} {path : String}
    (h : rights.unwritable path = none) (text : String) (d : Disk) :
    ((Disk.access rights).write path text).run d =
      (.ok (), { files := Function.update d.files path (some (.text text)),
                 touched := d.touched ++ [path] }) := by
  show Disk.write rights (d.touch path) path text = _
  rw [Disk.write, h]
  rfl

theorem writeArtifacts_run (s : Settings) (rights : Rights) (paths : ArtifactPaths)
    (compiled : Compiled) (d : Disk) :
    (writeArtifacts s (Disk.access rights) paths compiled).run d =
      ((writeEffect s rights paths compiled).result,
        d.after (writeEffect s rights paths compiled)) := by
  rw [writeArtifacts, writeEffect]
  cases hCode : rights.unwritable paths.code with
  | some fault =>
      rw [run_bind_of_run (Disk.access_write_refused hCode _ d)]
      rfl
  | none =>
      rw [run_bind_of_run (Disk.access_write_allowed hCode _ d)]
      cases hMap : rights.unwritable paths.map with
      | some fault =>
          refine (run_bind_of_run (Disk.access_write_refused hMap _ _) _).trans ?_
          simp [Disk.after, Disk.touch, withWritten]
          rfl
      | none =>
          refine (run_bind_of_run (Disk.access_write_allowed hMap _ _) _).trans ?_
          simp [Disk.after, withWritten]
          rfl

/-- One file is compiled by its effect. -/
theorem compileFile_run (s : Settings) (rights : Rights) (input : String) (d : Disk) :
    (compileFile s (Disk.access rights) input).run d =
      ((d.effect s rights input).result, d.after (d.effect s rights input)) := by
  have hFirst : ((Disk.access rights).read input).run d =
      (Disk.read rights d.files input, d.touch input) := rfl
  rw [compileFile, run_bind_of_run hFirst, Disk.effect, fileEffect.eq_def]
  cases Disk.read rights d.files input with
  | error fault => rfl
  | ok text =>
      dsimp only
      cases Compiled.ofText s input (Path.fileName input) text with
      | error fault => rfl
      | ok compiled =>
          dsimp only
          have hWriting := writeArtifacts_run s rights (ArtifactPaths.ofInput s input) compiled
            (d.touch input)
          rw [run_bind_of_run hWriting]
          cases (writeEffect s rights (ArtifactPaths.ofInput s input) compiled).result with
          | error fault => simp [Disk.after, Disk.touch, Except.map]; rfl
          | ok u => simp [Disk.after, Disk.touch, Except.map]; rfl

/-! ## What one file leaves alone -/

/-- The two paths that a source is compiled to. -/
def artifactsOf (s : Settings) (input : String) : List String :=
  [(ArtifactPaths.ofInput s input).code, (ArtifactPaths.ofInput s input).map]

theorem writeEffect_touched {s : Settings} {rights : Rights} {paths : ArtifactPaths}
    {compiled : Compiled} {path : String}
    (h : path ∈ (writeEffect s rights paths compiled).touched) :
    path ∈ [paths.code, paths.map] := by
  rw [writeEffect] at h
  split at h
  · simp_all
  · split at h <;> simp_all

/-- Only paths that were asked for are written. -/
theorem writeEffect_written {s : Settings} {rights : Rights} {paths : ArtifactPaths}
    {compiled : Compiled} {path : String}
    (h : path ∈ (writeEffect s rights paths compiled).written.map (·.1)) :
    path ∈ (writeEffect s rights paths compiled).touched := by
  rw [writeEffect] at h ⊢
  split at h
  · simp_all
  · split at h <;> grind

section FileEffect

variable (s : Settings) (rights : Rights) (input : String) (read : Except FileFault String)

@[simp] theorem fileEffect_input : (fileEffect s rights input read).result.input = input := by
  fun_cases fileEffect <;> rfl

theorem fileEffect_artifacts {a : Artifacts}
    (h : (fileEffect s rights input read).result.artifacts? = some a) : a.input = input := by
  revert h
  fun_cases fileEffect with
  | case1 fault => simp [FileOutcome.artifacts?]
  | case2 text fault _ => simp [FileOutcome.artifacts?]
  | case3 text compiled hCompiled paths writing =>
      cases hResult : writing.result with
      | error fault => simp [FileOutcome.artifacts?, Except.map]
      | ok u =>
          intro h
          rw [FileOutcome.artifacts?, Except.map] at h
          cases h
          rfl

theorem fileEffect_touched {path : String}
    (h : path ∈ (fileEffect s rights input read).touched) :
    path = input ∨ path ∈ artifactsOf s input := by
  revert h
  fun_cases fileEffect with
  | case1 fault => exact fun h => .inl (List.mem_singleton.1 h)
  | case2 text fault _ => exact fun h => .inl (List.mem_singleton.1 h)
  | case3 text compiled hCompiled paths writing =>
      intro h
      exact (List.mem_cons.1 h).imp_right writeEffect_touched

theorem fileEffect_written {path : String}
    (h : path ∈ (fileEffect s rights input read).written.map (·.1)) :
    path ∈ artifactsOf s input := by
  revert h
  fun_cases fileEffect with
  | case1 fault => simp
  | case2 text fault _ => simp
  | case3 text compiled hCompiled paths writing =>
      exact fun h => writeEffect_touched (writeEffect_written h)

end FileEffect

theorem withWritten_of_not_mem (files : String → Option Content)
    {written : List (String × String)} {path : String} (h : path ∉ written.map (·.1)) :
    withWritten files written path = files path := by
  induction written generalizing files with
  | nil => rfl
  | cons w written ih =>
      rw [List.map_cons, List.mem_cons, not_or] at h
      rw [withWritten, ih _ h.2, Function.update_of_ne h.1]

/-- What a path holds after writing depends on nothing but what it held before. -/
theorem withWritten_congr {f g : String → Option Content} {path : String}
    (h : f path = g path) (written : List (String × String)) :
    withWritten f written path = withWritten g written path := by
  induction written generalizing f g with
  | nil => exact h
  | cons w written ih =>
      apply ih
      by_cases hPath : path = w.1
      · rw [hPath, Function.update_self, Function.update_self]
      · rw [Function.update_of_ne hPath, Function.update_of_ne hPath, h]

/-- Writing to different paths may be done in either order. -/
theorem withWritten_comm (files : String → Option Content) {v w : List (String × String)}
    (h : ∀ path ∈ v.map (·.1), path ∉ w.map (·.1)) :
    withWritten (withWritten files v) w = withWritten (withWritten files w) v := by
  funext path
  by_cases hPath : path ∈ v.map (·.1)
  · have hSame := withWritten_of_not_mem files (h path hPath)
    rw [withWritten_of_not_mem _ (h path hPath), withWritten_congr hSame]
  · have hSame := withWritten_of_not_mem files hPath
    rw [withWritten_of_not_mem _ hPath, withWritten_congr hSame]

/-- What compiling a file does depends on a disk only by what the file holds there. -/
theorem Disk.effect_congr {d d' : Disk} {input : String} (h : d.files input = d'.files input)
    (s : Settings) (rights : Rights) : d.effect s rights input = d'.effect s rights input := by
  have hRead : read rights d.files input = read rights d'.files input := by
    rw [read, read, h]
  rw [Disk.effect, Disk.effect, hRead]

/-! ## Many files -/

/-- Compiles every one of the files, one after the other. -/
def compileEach (s : Settings) (rights : Rights) (inputs : List String) :
    StateM Disk (List FileOutcome) :=
  inputs.mapM (compileFile s (Disk.access rights))

section Each

variable {s : Settings} {rights : Rights}

theorem compileEach_cons (input : String) (inputs : List String) (d : Disk) :
    (compileEach s rights (input :: inputs)).run d =
      ((d.effect s rights input).result ::
          ((compileEach s rights inputs).run (d.after (d.effect s rights input))).1,
        ((compileEach s rights inputs).run (d.after (d.effect s rights input))).2) := by
  rw [compileEach, List.mapM_cons, run_bind_of_run (compileFile_run s rights input d)]
  rfl

/-- A batch that stops at failures has no outcome behind one. -/
theorem compileFiles_stops {input : String} {d : Disk} (hStops : s.failFast = true)
    (hFailed : (d.effect s rights input).result.succeeded = false) (inputs : List String) :
    (compileFiles s (Disk.access rights) (input :: inputs)).run d =
      ([(d.effect s rights input).result], d.after (d.effect s rights input)) := by
  rw [compileFiles, run_bind_of_run (compileFile_run s rights input d),
    if_pos (by rw [hStops, hFailed]; rfl)]
  rfl

theorem compileFiles_goes_on {input : String} {d : Disk}
    (h : (s.failFast && !(d.effect s rights input).result.succeeded) = false)
    (inputs : List String) :
    (compileFiles s (Disk.access rights) (input :: inputs)).run d =
      let rest := (compileFiles s (Disk.access rights) inputs).run
        (d.after (d.effect s rights input))
      ((d.effect s rights input).result :: rest.1, rest.2) := by
  rw [compileFiles, run_bind_of_run (compileFile_run s rights input d), if_neg (by simp [h])]
  rfl

/-- Files that are compiled one by one give an outcome each, in order. -/
theorem compileEach_inputs (inputs : List String) (d : Disk) :
    ((compileEach s rights inputs).run d).1.map (·.input) = inputs := by
  induction inputs generalizing d with
  | nil => rfl
  | cons input inputs ih =>
      rw [compileEach_cons, List.map_cons, ih, Disk.effect, fileEffect_input]

/-- What was written is reported for the file that it was written for. -/
theorem compileEach_artifacts (inputs : List String) (d : Disk) :
    ∀ o ∈ ((compileEach s rights inputs).run d).1,
      ∀ a, o.artifacts? = some a → a.input = o.input := by
  induction inputs generalizing d with
  | nil => exact fun o h => absurd h List.not_mem_nil
  | cons input inputs ih =>
      rw [compileEach_cons]
      refine List.forall_mem_cons.2 ⟨fun a h => ?_, ih _⟩
      rw [Disk.effect, fileEffect_input]
      exact fileEffect_artifacts s rights input _ h

/-- Nothing changes but the artifacts of the files. -/
theorem compileEach_unchanged {inputs : List String} {path : String}
    (h : ∀ input ∈ inputs, path ∉ artifactsOf s input) (d : Disk) :
    ((compileEach s rights inputs).run d).2.files path = d.files path := by
  induction inputs generalizing d with
  | nil => rfl
  | cons input inputs ih =>
      rw [List.forall_mem_cons] at h
      rw [compileEach_cons, ih h.2]
      apply withWritten_of_not_mem
      exact fun hWritten => h.1 (fileEffect_written s rights input _ hWritten)

/-- Nothing is asked for but the files and their artifacts. -/
theorem compileEach_touched {inputs : List String} {d : Disk} {path : String}
    (h : path ∈ ((compileEach s rights inputs).run d).2.touched) :
    path ∈ d.touched ∨ ∃ input ∈ inputs, path = input ∨ path ∈ artifactsOf s input := by
  induction inputs generalizing d with
  | nil => exact .inl h
  | cons input inputs ih =>
      rw [compileEach_cons] at h
      rcases ih h with hBefore | ⟨later, hLater, hOwn⟩
      · rcases List.mem_append.1 hBefore with hBefore | hOwn
        · exact .inl hBefore
        · exact .inr ⟨input, List.mem_cons_self, fileEffect_touched s rights input _ hOwn⟩
      · exact .inr ⟨later, List.mem_cons_of_mem _ hLater, hOwn⟩

end Each

/-! ## The report -/

/-- The files that are reported as compiled. -/
def compiledInputs (outcomes : List FileOutcome) : List String :=
  (outcomes.filterMap FileOutcome.artifacts?).map (·.input)

/-- The files that are reported as failed. -/
def failedInputs (outcomes : List FileOutcome) : List String :=
  (outcomes.filterMap FileOutcome.failure?).map (·.1)

theorem failedInputs_eq (outcomes : List FileOutcome) :
    failedInputs outcomes = (outcomes.filter (!·.succeeded)).map (·.input) := by
  induction outcomes with
  | nil => rfl
  | cons o outcomes ih =>
      rw [failedInputs] at ih ⊢
      rw [List.filterMap_cons, List.filter_cons]
      cases hResult : o.result <;>
        simp [FileOutcome.failure?, FileOutcome.succeeded, hResult, ih]

theorem compiledInputs_eq {outcomes : List FileOutcome}
    (h : ∀ o ∈ outcomes, ∀ a, o.artifacts? = some a → a.input = o.input) :
    compiledInputs outcomes = (outcomes.filter (·.succeeded)).map (·.input) := by
  induction outcomes with
  | nil => rfl
  | cons o outcomes ih =>
      rw [List.forall_mem_cons] at h
      have ih := ih h.2
      have hInput := h.1
      rw [compiledInputs] at ih ⊢
      rw [List.filterMap_cons, List.filter_cons]
      cases hResult : o.result with
      | error fault => simp [FileOutcome.artifacts?, FileOutcome.succeeded, hResult, ih]
      | ok a =>
          have hInput := hInput a (by rw [FileOutcome.artifacts?, hResult])
          simp [FileOutcome.artifacts?, FileOutcome.succeeded, hResult, ih, hInput]

theorem failedInputs_sublist (outcomes : List FileOutcome) :
    (failedInputs outcomes).Sublist (outcomes.map (·.input)) := by
  rw [failedInputs_eq]
  exact List.filter_sublist.map _

theorem compiledInputs_sublist {outcomes : List FileOutcome}
    (h : ∀ o ∈ outcomes, ∀ a, o.artifacts? = some a → a.input = o.input) :
    (compiledInputs outcomes).Sublist (outcomes.map (·.input)) := by
  rw [compiledInputs_eq h]
  exact List.filter_sublist.map _

/-- Every outcome is reported once. -/
theorem reportedInputs_perm {outcomes : List FileOutcome}
    (h : ∀ o ∈ outcomes, ∀ a, o.artifacts? = some a → a.input = o.input) :
    (compiledInputs outcomes ++ failedInputs outcomes).Perm (outcomes.map (·.input)) := by
  rw [compiledInputs_eq h, failedInputs_eq, ← List.map_append]
  exact (List.filter_append_perm _ outcomes).map _

/-! ## The order of files -/

/-- Whether the artifacts of a file are neither another file nor one of its artifacts.  Paths are
compared as texts; files that are apart as paths are apart in this sense too
(`ApartAsPaths.apart`). -/
def Apart (s : Settings) (input other : String) : Prop :=
  ∀ path ∈ artifactsOf s input, path ≠ other ∧ path ∉ artifactsOf s other

instance (s : Settings) (input other : String) : Decidable (Apart s input other) :=
  inferInstanceAs
    (Decidable (∀ path ∈ artifactsOf s input, path ≠ other ∧ path ∉ artifactsOf s other))

section Order

variable {s : Settings} {rights : Rights}

/-- What compiling a file does is the same once a file apart from it has been compiled. -/
theorem Disk.effect_after {a b : String} (h : Apart s a b) (d : Disk) :
    (d.after (d.effect s rights a)).effect s rights b = d.effect s rights b := by
  apply Disk.effect_congr
  apply withWritten_of_not_mem
  intro hWritten
  exact (h b (fileEffect_written s rights a _ hWritten)).1 rfl

/-- Two files that are apart may be compiled in either order. -/
theorem Disk.after_comm {a b : String} (h : Apart s a b) (d : Disk) :
    ((d.after (d.effect s rights a)).after (d.effect s rights b)).files =
      ((d.after (d.effect s rights b)).after (d.effect s rights a)).files := by
  apply withWritten_comm
  intro path hFirst hSecond
  exact (h path (fileEffect_written s rights a _ hFirst)).2
    (fileEffect_written s rights b _ hSecond)

/-- How files are compiled depends on what the disk holds, and not on what was asked of it. -/
theorem compileEach_congr (s : Settings) (rights : Rights) {d d' : Disk}
    (h : d.files = d'.files) (inputs : List String) :
    ((compileEach s rights inputs).run d).1 = ((compileEach s rights inputs).run d').1 ∧
      ((compileEach s rights inputs).run d).2.files =
        ((compileEach s rights inputs).run d').2.files := by
  induction inputs generalizing d d' with
  | nil => exact ⟨rfl, h⟩
  | cons input inputs ih =>
      have hEffect := Disk.effect_congr (congrFun h input) s rights
      have hAfter : (d.after (d.effect s rights input)).files =
          (d'.after (d'.effect s rights input)).files := by
        rw [Disk.after, Disk.after, hEffect, h]
      rw [compileEach_cons, compileEach_cons]
      refine ⟨?_, (ih hAfter).2⟩
      rw [(ih hAfter).1, hEffect]

/-- Files that are apart from each other may be compiled in any order. -/
theorem compileEach_perm {inputs inputs' : List String} (hPerm : inputs.Perm inputs')
    (hApart : ∀ a ∈ inputs, ∀ b ∈ inputs, a ≠ b → Apart s a b) (d : Disk) :
    ((compileEach s rights inputs).run d).1.Perm ((compileEach s rights inputs').run d).1 ∧
      ((compileEach s rights inputs).run d).2.files =
        ((compileEach s rights inputs').run d).2.files := by
  induction hPerm generalizing d with
  | nil => exact ⟨.nil, rfl⟩
  | cons input hPerm ih =>
      have ih := ih (fun a ha b hb => hApart a (.tail _ ha) b (.tail _ hb))
        (d.after (d.effect s rights input))
      rw [compileEach_cons, compileEach_cons]
      exact ⟨ih.1.cons _, ih.2⟩
  | swap a b inputs =>
      by_cases hEq : a = b
      · rw [hEq]
        exact ⟨.refl _, rfl⟩
      · have hAB := hApart a (by simp) b (by simp) hEq
        have hBA := hApart b (by simp) a (by simp) (Ne.symm hEq)
        have hComm : ((d.after (d.effect s rights b)).after (d.effect s rights a)).files =
            ((d.after (d.effect s rights a)).after (d.effect s rights b)).files :=
          Disk.after_comm hBA d
        have hRest := compileEach_congr s rights hComm inputs
        rw [compileEach_cons, compileEach_cons, compileEach_cons, compileEach_cons,
          Disk.effect_after hAB, Disk.effect_after hBA]
        refine ⟨?_, hRest.2⟩
        rw [hRest.1]
        exact .swap _ _ _
  | trans hFirst hSecond ihFirst ihSecond =>
      have hFirstRun := ihFirst hApart d
      have hSecondRun := ihSecond
        (fun a ha b hb => hApart a (hFirst.mem_iff.2 ha) b (hFirst.mem_iff.2 hb)) d
      exact ⟨hFirstRun.1.trans hSecondRun.1, hFirstRun.2.trans hSecondRun.2⟩

end Order

/-! ## Batches -/

/-- Whether a file can be read and compiled on a disk. -/
def Disk.Compiles (s : Settings) (rights : Rights) (d : Disk) (input : String)
    (compiled : Compiled) : Prop :=
  ∃ text, read rights d.files input = .ok text ∧
    Compiled.ofText s input (Path.fileName input) text = .ok compiled

/-- A file that cannot be read or compiled fails, and nothing is written. -/
theorem Disk.effect_of_not_compiles {s : Settings} {rights : Rights} {d : Disk} {input : String}
    (h : ¬ ∃ compiled, d.Compiles s rights input compiled) :
    (d.effect s rights input).result.succeeded = false ∧
      (d.effect s rights input).written = [] := by
  rw [Disk.effect]
  cases hRead : read rights d.files input with
  | error fault => exact ⟨rfl, rfl⟩
  | ok text =>
      rw [fileEffect]
      cases hCompiled : Compiled.ofText s input (Path.fileName input) text with
      | error fault => exact ⟨rfl, rfl⟩
      | ok compiled => exact absurd ⟨compiled, text, hRead, hCompiled⟩ h

/-- The code and the source map have been written if both could be. -/
theorem writeEffect_ok {s : Settings} {rights : Rights} {paths : ArtifactPaths}
    {compiled : Compiled} (h : (writeEffect s rights paths compiled).result = .ok ()) :
    (writeEffect s rights paths compiled).written =
      [(paths.code, compiled.code), (paths.map, compiled.map.write s.prettyMap)] := by
  revert h
  fun_cases writeEffect <;> simp

/-- A file succeeds only if it could be compiled, and then its artifacts have been written. -/
theorem Disk.effect_of_succeeded {s : Settings} {rights : Rights} {d : Disk} {input : String}
    (h : (d.effect s rights input).result.succeeded = true) :
    ∃ compiled, d.Compiles s rights input compiled ∧ (d.effect s rights input).written =
      [((ArtifactPaths.ofInput s input).code, compiled.code),
        ((ArtifactPaths.ofInput s input).map, compiled.map.write s.prettyMap)] := by
  rw [Disk.effect] at h ⊢
  cases hRead : read rights d.files input with
  | error fault => simp [hRead, fileEffect, FileOutcome.succeeded] at h
  | ok text =>
      rw [hRead, fileEffect] at h
      rw [fileEffect]
      cases hCompiled : Compiled.ofText s input (Path.fileName input) text with
      | error fault => simp [hCompiled, FileOutcome.succeeded] at h
      | ok compiled =>
          refine ⟨compiled, ⟨text, hRead, hCompiled⟩, writeEffect_ok ?_⟩
          rw [hCompiled] at h
          let writing := writeEffect s rights (ArtifactPaths.ofInput s input) compiled
          cases hResult : writing.result with
          | error fault => simp [writing, hResult, Except.map, FileOutcome.succeeded] at h
          | ok u => rfl

/-- What is left of a disk when one file has been compiled. -/
structure Confined (s : Settings) (rights : Rights) (d : Disk) (input : String)
    (o : FileOutcome) (after : Disk) : Prop where
  /-- A file that cannot be read or compiled fails and changes nothing. -/
  failed : (¬ ∃ compiled, d.Compiles s rights input compiled) →
    o.succeeded = false ∧ after.files = d.files
  /-- Nothing changes but the artifacts. -/
  unchanged : ∀ path, path ∉ artifactsOf s input → after.files path = d.files path
  /-- If the file is reported as compiled, then its artifacts have been written. -/
  written : o.succeeded = true → ∃ compiled, d.Compiles s rights input compiled ∧
    after.files = withWritten d.files
      [((ArtifactPaths.ofInput s input).code, compiled.code),
        ((ArtifactPaths.ofInput s input).map, compiled.map.write s.prettyMap)]

/-- One file changes its artifacts at most. -/
theorem compileFile_confined (s : Settings) (rights : Rights) (input : String) (d : Disk) :
    Confined s rights d input ((compileFile s (Disk.access rights) input).run d).1
      ((compileFile s (Disk.access rights) input).run d).2 := by
  rw [compileFile_run]
  refine ⟨?_, ?_, ?_⟩
  · intro h
    have hEffect := Disk.effect_of_not_compiles h
    refine ⟨hEffect.1, ?_⟩
    rw [Disk.after, hEffect.2, withWritten]
  · intro path h
    apply withWritten_of_not_mem
    exact fun hWritten => h (fileEffect_written s rights input _ hWritten)
  · intro h
    obtain ⟨compiled, hCompiles, hWritten⟩ := Disk.effect_of_succeeded h
    refine ⟨compiled, hCompiles, ?_⟩
    rw [Disk.after, hWritten]

/-- How far a batch goes, if it processes some files and leaves out later ones. -/
structure StopsAtFailure (s : Settings) (later : List String)
    (outcomes : List FileOutcome) : Prop where
  /-- A batch that goes on after failures leaves no file out. -/
  all : s.failFast = false → later = []
  /-- In a batch that stops at failures, an outcome that another one follows is a success, -/
  succeeded : s.failFast = true → outcomes.Pairwise fun o _ => o.succeeded = true
  /-- and files are left out only behind a failure. -/
  last_failed : later ≠ [] → ∃ o, outcomes.getLast? = some o ∧ o.succeeded = false

/-- A batch compiles the files that it processes, one after the other. -/
theorem compileFiles_run (s : Settings) (rights : Rights) (inputs : List String) (d : Disk) :
    ∃ processed later, inputs = processed ++ later ∧
      (compileFiles s (Disk.access rights) inputs).run d =
        (compileEach s rights processed).run d ∧
      StopsAtFailure s later ((compileEach s rights processed).run d).1 := by
  induction inputs generalizing d with
  | nil => exact ⟨[], [], rfl, rfl, fun _ => rfl, fun _ => .nil, fun h => absurd rfl h⟩
  | cons input inputs ih =>
      cases hStops : s.failFast && !(d.effect s rights input).result.succeeded with
      | true =>
          rw [Bool.and_eq_true, Bool.not_eq_true'] at hStops
          refine ⟨[input], inputs, rfl, ?_⟩
          rw [compileFiles_stops hStops.1 hStops.2, compileEach_cons]
          refine ⟨rfl, ?_, ?_, ?_⟩
          · intro hGoes
            rw [hGoes] at hStops
            cases hStops.1
          · exact fun _ => List.pairwise_singleton _ _
          · exact fun _ => ⟨_, rfl, hStops.2⟩
      | false =>
          obtain ⟨processed, later, hInputs, hRun, hRest⟩ :=
            ih (d.after (d.effect s rights input))
          refine ⟨input :: processed, later, congrArg (input :: ·) hInputs, ?_⟩
          rw [compileFiles_goes_on hStops, compileEach_cons, hRun]
          refine ⟨rfl, hRest.all, ?_, ?_⟩
          · intro hStop
            rw [hStop, Bool.true_and, Bool.not_eq_false'] at hStops
            exact List.pairwise_cons.2 ⟨fun _ _ => hStops, hRest.succeeded hStop⟩
          · intro hLater
            obtain ⟨o, hLast, hFailed⟩ := hRest.last_failed hLater
            exact ⟨o, by rw [List.getLast?_cons, hLast, Option.getD_some], hFailed⟩

/-- What the outcomes of files and the disk behind them say about the files. -/
structure Accounted (s : Settings) (d : Disk) (processed : List String)
    (outcomes : List FileOutcome) (after : Disk) : Prop where
  in_order : outcomes.map (·.input) = processed
  compiled_in_order : (compiledInputs outcomes).Sublist processed
  failed_in_order : (failedInputs outcomes).Sublist processed
  /-- Every file is reported once, as compiled or as failed. -/
  reported_once : (compiledInputs outcomes ++ failedInputs outcomes).Perm processed
  /-- Nothing is asked for but the files and their artifacts. -/
  touched : ∀ path ∈ after.touched, path ∈ d.touched ∨
    ∃ input ∈ processed, path = input ∨ path ∈ artifactsOf s input
  /-- Nothing changes but the artifacts of the files. -/
  unchanged : ∀ path, (∀ input ∈ processed, path ∉ artifactsOf s input) →
    after.files path = d.files path

theorem compileEach_accounted (s : Settings) (rights : Rights) (processed : List String)
    (d : Disk) :
    Accounted s d processed ((compileEach s rights processed).run d).1
      ((compileEach s rights processed).run d).2 := by
  have hNamed := @compileEach_artifacts s rights processed d
  have hInputs := @compileEach_inputs s rights processed d
  have hCompiled := compiledInputs_sublist hNamed
  have hFailed := failedInputs_sublist ((compileEach s rights processed).run d).1
  have hOnce := reportedInputs_perm hNamed
  rw [hInputs] at hCompiled hFailed hOnce
  exact ⟨hInputs, hCompiled, hFailed, hOnce, fun path => compileEach_touched,
    fun path h => compileEach_unchanged h d⟩

/-- A batch accounts for its files.  It compiles them in order, up to the failure at which it
stops or to the end, and reports each once.  A file that fails to be read or compiled changes
nothing, and any other file changes its artifacts only.  If files are apart from each other and
the batch does not stop, then their order changes neither their outcomes nor what the disk holds
in the end. -/
theorem batch_accounts_for_inputs (s : Settings) (rights : Rights) (inputs : List String)
    (d : Disk) :
    (∃ processed later, inputs = processed ++ later ∧
      (compileFiles s (Disk.access rights) inputs).run d =
        (compileEach s rights processed).run d ∧
      StopsAtFailure s later ((compileEach s rights processed).run d).1 ∧
      Accounted s d processed ((compileEach s rights processed).run d).1
        ((compileEach s rights processed).run d).2) ∧
    (∀ input before,
      Confined s rights before input
        ((compileFile s (Disk.access rights) input).run before).1
        ((compileFile s (Disk.access rights) input).run before).2) ∧
    (s.failFast = false → (∀ a ∈ inputs, ∀ b ∈ inputs, a ≠ b → Apart s a b) →
      ∀ inputs', inputs.Perm inputs' →
        ((compileFiles s (Disk.access rights) inputs).run d).1.Perm
            ((compileFiles s (Disk.access rights) inputs').run d).1 ∧
          ((compileFiles s (Disk.access rights) inputs).run d).2.files =
            ((compileFiles s (Disk.access rights) inputs').run d).2.files) := by
  refine ⟨?_, compileFile_confined s rights, ?_⟩
  · obtain ⟨processed, later, hInputs, hRun, hStops⟩ := compileFiles_run s rights inputs d
    exact ⟨processed, later, hInputs, hRun, hStops, compileEach_accounted s rights processed d⟩
  · intro hGoes hApart inputs' hPerm
    have hAll (inputs : List String) : (compileFiles s (Disk.access rights) inputs).run d =
        (compileEach s rights inputs).run d := by
      obtain ⟨processed, later, hInputs, hRun, hStops⟩ := compileFiles_run s rights inputs d
      rw [hRun, hInputs, hStops.all hGoes, List.append_nil]
    rw [hAll, hAll]
    exact compileEach_perm hPerm hApart d

/-- Three files, of which one is missing and one cannot be written, in two orders. -/
theorem batch_accounts_for_inputs_sample :
    let rights : Rights :=
      ⟨fun _ => none, fun path => if path = "c.js" then some .isDirectory else none⟩
    let d : Disk := ⟨withWritten (fun _ => none) [("a.rpn", "1 2 +"), ("c.rpn", "x 1 =")], []⟩
    let batch inputs := (compileFiles {} (Disk.access rights) inputs).run d
    (∀ a ∈ ["a.rpn", "b.rpn", "c.rpn"], ∀ b ∈ ["a.rpn", "b.rpn", "c.rpn"], a ≠ b → Apart {} a b) ∧
    compiledInputs (batch ["a.rpn", "b.rpn", "c.rpn"]).1 = ["a.rpn"] ∧
    failedInputs (batch ["a.rpn", "b.rpn", "c.rpn"]).1 = ["b.rpn", "c.rpn"] ∧
    (batch ["a.rpn", "b.rpn", "c.rpn"]).1.Perm (batch ["c.rpn", "a.rpn", "b.rpn"]).1 ∧
    (batch ["a.rpn", "b.rpn", "c.rpn"]).2.files = (batch ["c.rpn", "a.rpn", "b.rpn"]).2.files := by
  intro rights d batch
  have hApart : ∀ a ∈ ["a.rpn", "b.rpn", "c.rpn"], ∀ b ∈ ["a.rpn", "b.rpn", "c.rpn"],
      a ≠ b → Apart {} a b := by decide +kernel
  have hOrder := (batch_accounts_for_inputs {} rights ["a.rpn", "b.rpn", "c.rpn"] d).2.2 rfl hApart
    ["c.rpn", "a.rpn", "b.rpn"] (by decide)
  exact ⟨hApart, by decide +kernel, by decide +kernel, hOrder.1, hOrder.2⟩

end ReversePolish

import ReversePolish.Forest.Parser
import ReversePolish.Text.Blank

/-!
# Settings

What can be chosen about a compilation: how artifacts are named, which runtime the
emitted code uses, what the source map holds, when a batch stops and how deep
operands may nest. Each setting has a key, by which files name it, and a place in
the order of all settings. `Settings.check` says which choices make sense.
-/

namespace ReversePolish

structure Settings where
  /-- The extension that is taken off the name of a source, whatever its case. -/
  sourceExtension : String := ".rpn"
  /-- The extension of the emitted code. -/
  targetExtension : String := ".js"
  /-- What is put behind the name of the code to name its source map. -/
  mapExtension : String := ".map"
  /-- The module from which the emitted code takes its stack machine. -/
  runtimeModule : String := "../rpn-vm.js"
  runtimeClass : String := "Rpn"
  runtimeInstance : String := "rpn"
  /-- Whether the source map holds the text of the source. -/
  embedSources : Bool := false
  /-- Whether the source map is indented. -/
  prettyMap : Bool := false
  /-- Whether a batch stops at the first failure. -/
  failFast : Bool := false
  /-- How deep operands may nest in a statement. -/
  maxDepth : Nat := defaultMaxDepth
  deriving DecidableEq, Repr

/-- The name of a setting. -/
inductive Setting where
  | sourceExtension
  | targetExtension
  | mapExtension
  | runtimeModule
  | runtimeClass
  | runtimeInstance
  | embedSources
  | prettyMap
  | failFast
  | maxDepth
  deriving DecidableEq, Repr

namespace Setting

/-- All settings in order. -/
def all : List Setting :=
  [.sourceExtension, .targetExtension, .mapExtension, .runtimeModule, .runtimeClass,
    .runtimeInstance, .embedSources, .prettyMap, .failFast, .maxDepth]

/-- The key of a setting. -/
def key : Setting → String
  | .sourceExtension => "source_extension"
  | .targetExtension => "target_extension"
  | .mapExtension => "map_extension"
  | .runtimeModule => "runtime_module"
  | .runtimeClass => "runtime_class"
  | .runtimeInstance => "runtime_instance"
  | .embedSources => "embed_sources"
  | .prettyMap => "pretty_map"
  | .failFast => "fail_fast"
  | .maxDepth => "max_depth"

/-- The setting with a key. -/
def ofKey? (key : String) : Option Setting :=
  all.find? (·.key == key)

/-- The environment variable of a setting. -/
def environmentName : Setting → String
  | .sourceExtension => "RPN_SOURCE_EXT"
  | .targetExtension => "RPN_TARGET_EXT"
  | .mapExtension => "RPN_MAP_EXT"
  | .runtimeModule => "RPN_RUNTIME_MODULE"
  | .runtimeClass => "RPN_RUNTIME_CLASS"
  | .runtimeInstance => "RPN_RUNTIME_INSTANCE"
  | .embedSources => "RPN_EMBED_SOURCES"
  | .prettyMap => "RPN_PRETTY_MAP"
  | .failFast => "RPN_FAIL_FAST"
  | .maxDepth => "RPN_MAX_DEPTH"

end Setting

/-- The value of one setting. -/
inductive Literal where
  | text (content : String)
  | flag (b : Bool)
  | count (n : Nat)
  deriving DecidableEq, Repr

namespace Settings

/-- The value of a setting. -/
def get (s : Settings) : Setting → Literal
  | .sourceExtension => .text s.sourceExtension
  | .targetExtension => .text s.targetExtension
  | .mapExtension => .text s.mapExtension
  | .runtimeModule => .text s.runtimeModule
  | .runtimeClass => .text s.runtimeClass
  | .runtimeInstance => .text s.runtimeInstance
  | .embedSources => .flag s.embedSources
  | .prettyMap => .flag s.prettyMap
  | .failFast => .flag s.failFast
  | .maxDepth => .count s.maxDepth

/-- Changes a setting, if the value is of the setting's kind. -/
def set? (s : Settings) : Setting → Literal → Option Settings
  | .sourceExtension, .text t => some { s with sourceExtension := t }
  | .targetExtension, .text t => some { s with targetExtension := t }
  | .mapExtension, .text t => some { s with mapExtension := t }
  | .runtimeModule, .text t => some { s with runtimeModule := t }
  | .runtimeClass, .text t => some { s with runtimeClass := t }
  | .runtimeInstance, .text t => some { s with runtimeInstance := t }
  | .embedSources, .flag b => some { s with embedSources := b }
  | .prettyMap, .flag b => some { s with prettyMap := b }
  | .failFast, .flag b => some { s with failFast := b }
  | .maxDepth, .count n => some { s with maxDepth := n }
  | _, _ => none

/-- Changes a setting; a value of another kind changes nothing. -/
def set (s : Settings) (setting : Setting) (value : Literal) : Settings :=
  (s.set? setting value).getD s

end Settings

/-! ## Settings that make sense -/

/-- Why settings are refused. -/
inductive SettingsFault where
  /-- An extension is not a point and something behind it. -/
  | extension (setting : Setting) (found : String)
  | identifier (setting : Setting) (found : String)
  /-- The runtime's class and instance have one name. -/
  | sameName
  | zeroDepth
  /-- The module is blank, or holds the quote that ends its name in the code. -/
  | runtimeModule (found : String)
  deriving DecidableEq, Repr

def SettingsFault.message : SettingsFault → String
  | .extension setting found =>
    s!"{setting.key} doit commencer par `.` et être non vide: `{found}`"
  | .identifier setting found =>
    s!"{setting.key} n’est pas un identifiant JavaScript: `{found}`"
  | .sameName => "runtime_instance et runtime_class doivent différer"
  | .zeroDepth => "max_depth doit être > 0"
  | .runtimeModule found => s!"runtime_module invalide: `{found}`"

namespace Settings

def isExtension (text : String) : Bool :=
  match text.toList with
  | '.' :: _ :: _ => true
  | _ => false

def isModule (text : String) : Bool :=
  !(Text.trim text.toList).isEmpty && !text.toList.contains '\''

/-- Everything that is wrong with the settings, in the order of the checks. -/
def faults (s : Settings) : List SettingsFault :=
  let require (holds : Bool) (fault : SettingsFault) := if holds then [] else [fault]
  require (isExtension s.sourceExtension) (.extension .sourceExtension s.sourceExtension) ++
  require (isExtension s.targetExtension) (.extension .targetExtension s.targetExtension) ++
  require (isExtension s.mapExtension) (.extension .mapExtension s.mapExtension) ++
  require (isIdentifier s.runtimeClass) (.identifier .runtimeClass s.runtimeClass) ++
  require (isIdentifier s.runtimeInstance) (.identifier .runtimeInstance s.runtimeInstance) ++
  require (s.runtimeInstance != s.runtimeClass) .sameName ++
  require (0 < s.maxDepth) .zeroDepth ++
  require (isModule s.runtimeModule) (.runtimeModule s.runtimeModule)

/-- The first thing that is wrong with the settings, if any. -/
def check (s : Settings) : Except SettingsFault Unit :=
  match s.faults with
  | [] => .ok ()
  | fault :: _ => .error fault

theorem faults_eq_nil_iff (s : Settings) :
    s.faults = [] ↔ isExtension s.sourceExtension = true ∧ isExtension s.targetExtension = true ∧
      isExtension s.mapExtension = true ∧ isIdentifier s.runtimeClass = true ∧
      isIdentifier s.runtimeInstance = true ∧ s.runtimeInstance ≠ s.runtimeClass ∧
      0 < s.maxDepth ∧ isModule s.runtimeModule = true := by
  have hRequire (holds : Bool) (fault : SettingsFault) :
      (if holds then [] else [fault]) = [] ↔ holds = true := by
    cases holds <;> simp
  simp only [faults, List.append_eq_nil_iff, hRequire, and_assoc]
  simp only [bne_iff_ne, decide_eq_true_eq]

theorem check_eq_ok_iff (s : Settings) : s.check = .ok () ↔ s.faults = [] := by
  rw [check]
  cases s.faults <;> simp

end Settings

end ReversePolish

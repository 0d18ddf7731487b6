import CacheUpkeep.Config.Layer
import CacheUpkeep.Lock.Basic
import CacheUpkeep.Retention

/-!
# Settings

The typed form of a merged configuration and its built-in values.  A structure
is an object or the list of its fields in order.  Members are read in the order
of their keys, so the first key that does not fit is the one that is reported.
-/

namespace CacheUpkeep.Config

open CacheUpkeep.Json

structure ToolSettings where
  conan : String
  clangTidyCache : String
deriving DecidableEq, Repr

structure DoctorSettings where
  remote : String
deriving DecidableEq, Repr

structure Settings where
  retention : RetentionWindow
  lockTimeout : Nat
  cacheBase : Option Path
  ctcacheDir : Option Path
  conanHome : Option Path
  tools : ToolSettings
  doctor : DoctorSettings
deriving DecidableEq, Repr

namespace Settings

def standard : Settings where
  retention := .standard
  lockTimeout := 0
  cacheBase := none
  ctcacheDir := none
  conanHome := none
  tools := ⟨"conan", "clang-tidy-cache"⟩
  doctor := ⟨"artifactory"⟩

def lockWait (s : Settings) : LockWait :=
  .ofSeconds s.lockTimeout

/-- The built-in values as the lowest layer. -/
def builtinLayer : Json :=
  .object [
    ("doctor", .object [("remote", .string standard.doctor.remote)]),
    ("lock_timeout_seconds", .natural standard.lockTimeout),
    ("retention", .string standard.retention.text),
    ("tools", .object [
      ("clang_tidy_cache", .string standard.tools.clangTidyCache),
      ("conan", .string standard.tools.conan)])]

/-! ## Fields -/

def textOf : Json → Except Misfit String
  | .string text => .ok text
  | value => .error (.wrongType value.describe "a string")

def naturalOf : Json → Except Misfit Nat
  | .number (.integer n) =>
      if 0 ≤ n then .ok n.toNat else .error (.wrongValue (describeInteger n) "u64")
  | value => .error (.wrongType value.describe "u64")

def pathOf : Json → Except Misfit (Option Path)
  | .null => .ok none
  | .string text => .ok (some (Path.ofString text))
  | value => .error (.wrongType value.describe "path string")

def required {α : Type} (name : String) : Option α → Except Misfit α
  | some a => .ok a
  | none => .error (.missingField name)

def item {α : Type} (items : List Json) (index : Nat) (shape : String)
    (read : Json → Except Misfit α) : Except Misfit α :=
  match items[index]? with
  | some value => read value
  | none => .error (.wrongLength index shape)

/-- No item may be left over. -/
def endAt (items : List Json) (count : Nat) : Except Misfit Unit :=
  if count < items.length then
    .error (.wrongLength items.length "fewer elements in array")
  else .ok ()

/-! ## Structures -/

structure ToolDraft where
  conan : Option String
  clangTidyCache : Option String

def toolMember (d : ToolDraft) (member : String × Json) : Except Misfit ToolDraft :=
  match member with
  | ("conan", value) => (textOf value).map fun t => { d with conan := some t }
  | ("clang_tidy_cache", value) =>
      (textOf value).map fun t => { d with clangTidyCache := some t }
  | _ => .ok d

def toolsOf : Json → Except Misfit ToolSettings
  | .object members => do
      let d ← members.foldlM toolMember ⟨none, none⟩
      let conan ← required "conan" d.conan
      let clangTidyCache ← required "clang_tidy_cache" d.clangTidyCache
      return ⟨conan, clangTidyCache⟩
  | .array items => do
      let shape := "struct ToolSettings with 2 elements"
      let conan ← item items 0 shape textOf
      let clangTidyCache ← item items 1 shape textOf
      endAt items 2
      return ⟨conan, clangTidyCache⟩
  | value => .error (.wrongType value.describe "struct ToolSettings")

def doctorMember (d : Option String) (member : String × Json) :
    Except Misfit (Option String) :=
  match member with
  | ("remote", value) => (textOf value).map some
  | _ => .ok d

def doctorOf : Json → Except Misfit DoctorSettings
  | .object members => do
      let d ← members.foldlM doctorMember none
      return ⟨← required "remote" d⟩
  | .array items => do
      let remote ← item items 0 "struct DoctorSettings with 1 element" textOf
      endAt items 1
      return ⟨remote⟩
  | value => .error (.wrongType value.describe "struct DoctorSettings")

/-- The members seen so far; a path that is not given is none. -/
structure Draft where
  retention : Option RetentionWindow
  lockTimeout : Option Nat
  cacheBase : Option Path
  ctcacheDir : Option Path
  conanHome : Option Path
  tools : Option ToolSettings
  doctor : Option DoctorSettings

def member (d : Draft) (m : String × Json) : Except Misfit Draft :=
  match m with
  | ("retention", value) =>
      (RetentionWindow.ofJson value).map fun w => { d with retention := some w }
  | ("lock_timeout_seconds", value) =>
      (naturalOf value).map fun n => { d with lockTimeout := some n }
  | ("cache_base", value) => (pathOf value).map fun p => { d with cacheBase := p }
  | ("ctcache_dir", value) => (pathOf value).map fun p => { d with ctcacheDir := p }
  | ("conan_home", value) => (pathOf value).map fun p => { d with conanHome := p }
  | ("tools", value) => (toolsOf value).map fun t => { d with tools := some t }
  | ("doctor", value) => (doctorOf value).map fun t => { d with doctor := some t }
  | _ => .ok d

def finish (d : Draft) : Except Misfit Settings := do
  let retention ← required "retention" d.retention
  let lockTimeout ← required "lock_timeout_seconds" d.lockTimeout
  let tools ← required "tools" d.tools
  let doctor ← required "doctor" d.doctor
  return ⟨retention, lockTimeout, d.cacheBase, d.ctcacheDir, d.conanHome, tools, doctor⟩

def optionalItem (items : List Json) (index : Nat) : Except Misfit (Option Path) :=
  match items[index]? with
  | some value => pathOf value
  | none => .ok none

def ofItems (items : List Json) : Except Misfit Settings := do
  let shape := "struct Settings with 7 elements"
  let retention ← item items 0 shape RetentionWindow.ofJson
  let lockTimeout ← item items 1 shape naturalOf
  let cacheBase ← optionalItem items 2
  let ctcacheDir ← optionalItem items 3
  let conanHome ← optionalItem items 4
  let tools ← item items 5 shape toolsOf
  let doctor ← item items 6 shape doctorOf
  endAt items 7
  return ⟨retention, lockTimeout, cacheBase, ctcacheDir, conanHome, tools, doctor⟩

def ofJson : Json → Except Misfit Settings
  | .object members => do
      finish (← members.foldlM member ⟨none, none, none, none, none, none, none⟩)
  | .array items => ofItems items
  | value => .error (.wrongType value.describe "struct Settings")

end Settings

end CacheUpkeep.Config

import Mathlib.Tactic.Basic

namespace RivetLua.Core

/-!
# Core — language profiles

Everything that depends on the Lua version takes a `LuaProfile`; `LuaProfile.rules` lists the
language features in which the two profiles differ.
-/

/-- The language profile. -/
inductive LuaProfile where
  | lua54 | lua55
  deriving DecidableEq, Repr

/-- The features a profile switches on. -/
structure ProfileRules where
  globalDeclarations : Bool
  namedVararg : Bool
  readonlyForControl : Bool
  tableCreate : Bool
  deriving DecidableEq, Repr

/-- `LuaProfile::rules`. -/
def LuaProfile.rules : LuaProfile → ProfileRules
  | .lua55 => ⟨true, true, true, true⟩
  | .lua54 => ⟨false, false, false, false⟩

end RivetLua.Core

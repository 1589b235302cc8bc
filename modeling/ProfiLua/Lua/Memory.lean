import ProfiLua.Lua.State
import ProfiLua.Program.Invariant

/-!
API calls and the allocator.

The one block that no allocator can give is that of a table with a negative size
hint. Every other API call may stop for many reasons, but not for this one
(`Modest`).
-/

namespace ProfiLua

open Program

variable {σ α : Type} (E : Env σ)

/-- The call never asks for a block of negative size. -/
abbrev Modest (call : LuaM σ α) : Prop :=
  Maintains (fun _ => True) (fun e => e ≠ LuaStop.memory) call

theorem valueAt_modest (idx : Int) : Modest (valueAt (σ := σ) idx) := by
  refine .get fun l _ => ?_
  split
  · exact .pure _
  · exact .ite (fun _ => .pure _) fun _ => .throw (by simp)

theorem push_modest (v : TValue) : Modest (push (σ := σ) v) := .modify fun _ _ => trivial

theorem set_modest (l : LuaState σ) : Modest (set l : LuaM σ PUnit) :=
  .of_ensures fun _ _ => .of_ok rfl trivial

theorem luaPop_modest (n : Nat) : Modest (luaPop (σ := σ) n) :=
  .get fun _ _ => .ite (fun _ => set_modest _) fun _ => .throw (by simp)

/-- A size hint that is not negative: the only call with a condition. -/
theorem luaCreatetable_modest {narray : Int} (nonneg : 0 ≤ narray) :
    Modest (luaCreatetable (σ := σ) narray) :=
  .get fun _ _ => .ite (fun negative => absurd negative (by omega)) fun _ => set_modest _

/-- An error of Lua code is a value that is raised, and out of memory is not one. -/
theorem runScript_modest (code : Heap σ → CallResult σ) : Modest (runScript code) := by
  refine .get fun l _ => ?_
  split
  · exact (set_modest _).bind fun _ => .pure _
  · exact (set_modest _).bind fun _ => .throw (by simp)

/-- Reading an entry stops for an index of something that is no table, or for an
error of its metamethod. -/
theorem luaVGettable_modest (t key : TValue) : Modest (luaVGettable E t key) := by
  refine .get fun l _ => ?_
  split
  · exact .ite (fun _ => .pure _) fun _ => (runScript_modest _).bind fun _ => .pure _
  · exact .ite (fun _ => (runScript_modest _).bind fun _ => .pure _) fun _ => .throw (by simp)

theorem luaVSettable_modest (t key val : TValue) : Modest (luaVSettable E t key val) := by
  refine .get fun l _ => ?_
  split
  · refine .ite (fun _ => .throw (by simp)) fun _ => .ite (fun _ => set_modest _) fun _ => ?_
    exact (runScript_modest _).bind fun _ => .pure _
  · exact .ite (fun _ => (runScript_modest _).bind fun _ => .pure _) fun _ => .throw (by simp)

theorem luaGettable_modest (idx : Int) : Modest (luaGettable E idx) :=
  (valueAt_modest idx).bind fun _ => (valueAt_modest _).bind fun _ =>
    (luaVGettable_modest E _ _).bind fun _ => .modify fun _ _ => trivial

theorem luaSettable_modest (idx : Int) : Modest (luaSettable E idx) :=
  (valueAt_modest idx).bind fun _ => (valueAt_modest _).bind fun _ => (valueAt_modest _).bind
    fun _ => (luaVSettable_modest E _ _ _).bind fun _ => luaPop_modest 2

theorem luaGetglobal_modest (name : String) : Modest (luaGetglobal E name) :=
  (valueAt_modest _).bind fun _ => (luaVGettable_modest E _ _).bind fun _ => push_modest _

theorem luaSetglobal_modest (name : String) : Modest (luaSetglobal E name) :=
  (valueAt_modest _).bind fun _ => (valueAt_modest _).bind fun _ =>
    (luaVSettable_modest E _ _ _).bind fun _ => luaPop_modest 1

theorem luaHasType_modest (idx : Int) (t : LuaType) : Modest (luaHasType (σ := σ) idx t) :=
  (valueAt_modest idx).bind fun _ => .pure _

theorem luaIsnumber_modest (idx : Int) : Modest (luaIsnumber E idx) :=
  (valueAt_modest idx).bind fun _ => .pure _

theorem luaIsstring_modest (idx : Int) : Modest (luaIsstring (σ := σ) idx) :=
  (valueAt_modest idx).bind fun _ => .pure _

theorem luaTonumber_modest (idx : Int) : Modest (luaTonumber E idx) :=
  (valueAt_modest idx).bind fun _ => .pure _

theorem luaTostring_modest : Modest (luaTostring E) :=
  (valueAt_modest _).bind fun _ => (luaIsstring_modest _).bind fun _ => .ite
    (fun _ => (Maintains.modify fun _ _ => trivial).bind fun _ => .pure _) fun _ => .pure _

/-- An unprotected call stops for an error of the function. -/
theorem luaCall_modest (nargs nresults : Nat) : Modest (luaCall E nargs nresults) :=
  (valueAt_modest _).bind fun _ => .get fun _ _ => (runScript_modest _).bind fun _ =>
    .modify fun _ _ => trivial

/-- A protected call does not stop at all. -/
theorem luaPcall_modest : Modest (luaPcall E) := by
  refine (valueAt_modest _).bind fun func => .get fun l _ => ?_
  split
  · exact set_modest _
  · exact set_modest _

theorem luaLLoadfile_modest (file : UChar) : Modest (luaLLoadfile E file) :=
  .get fun _ _ => set_modest _

end ProfiLua

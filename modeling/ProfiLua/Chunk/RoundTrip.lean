import ProfiLua.Chunk.Loads

/-!
A chunk is loaded as the function it was dumped from, by any reader; one that is
cut short is refused; and what is accepted was a chunk of a checked function.
-/

namespace ProfiLua

open Program (Supply Decoder Encoder Carries Sink deliver)

/-! ### What loading makes of a function -/

mutual

/-- A function as it comes back: one with no source of its own has that of the
function around it, and a stripped one has no information for debugging. -/
def Proto.loaded (strip : Bool) : Proto → Bytes → Proto
  | ⟨source, linedefined, lastlinedefined, nups, numparams, isVararg, maxstacksize, code, k, p,
      lineinfo, locvars, upvalues⟩, parent =>
    let source := if strip then parent else source.getD parent
    ⟨some source, linedefined, lastlinedefined, nups, numparams, isVararg, maxstacksize, code, k,
      Proto.loadedAll strip p source, if strip then [] else lineinfo,
      if strip then [] else locvars, if strip then [] else upvalues⟩

/-- The functions inside. -/
def Proto.loadedAll (strip : Bool) : List Proto → Bytes → List Proto
  | [], _ => []
  | f :: fs, parent => f.loaded strip parent :: Proto.loadedAll strip fs parent

end

/-- The functions inside a function are loaded one by one, each with that
function's source for its parent's. -/
theorem loadedAll_eq_map (strip : Bool) (fs : List Proto) (parent : Bytes) :
    Proto.loadedAll strip fs parent = fs.map fun f => f.loaded strip parent := by
  induction fs with
  | nil => rfl
  | cons f fs ih => rw [Proto.loadedAll, ih, List.map_cons]

theorem dumpFunctions_eq_each (strip : Bool) (fs : List Proto) (parent : Option Bytes) :
    dumpFunctions strip fs parent = .each (fun f => dumpFunction strip f parent) fs := by
  induction fs with
  | nil => rfl
  | cons f fs ih => rw [dumpFunctions, ih, Encoder.each]

@[simp] theorem loaded_nups (strip : Bool) (f : Proto) (parent : Bytes) :
    (f.loaded strip parent).nups = f.nups := by
  cases f
  rfl

/-! ### The checker looks at the code only -/

/-- Functions with the same code, for the checker. -/
structure SameCode (f g : Proto) : Prop where
  nups : g.nups = f.nups
  isVararg : g.isVararg = f.isVararg
  maxstacksize : g.maxstacksize = f.maxstacksize
  code : g.code = f.code
  k : g.k = f.k
  p : g.p.map Proto.nups = f.p.map Proto.nups

namespace SameCode

variable {f g : Proto} (same : SameCode f g)
include same

/-- They have the same instruction at every place. -/
theorem fetch : g.fetch = f.fetch := by
  funext pc
  rw [Proto.fetch, Proto.fetch, same.code]

theorem setlistsBefore : ProfiLua.setlistsBefore g = ProfiLua.setlistsBefore f := by
  funext dest
  induction dest with
  | zero => rfl
  | succ dest ih => rw [ProfiLua.setlistsBefore, ProfiLua.setlistsBefore, same.fetch, ih]

theorem checkreg : g.checkreg = f.checkreg := by
  funext reg
  rw [Proto.checkreg, Proto.checkreg, same.maxstacksize]

theorem isvararg : g.isvararg = f.isvararg := by
  rw [Proto.isvararg, Proto.isvararg, same.isVararg]

theorem needsarg : g.needsarg = f.needsarg := by
  rw [Proto.needsarg, Proto.needsarg, same.isVararg]

theorem checkArgMode : ProfiLua.checkArgMode g = ProfiLua.checkArgMode f := by
  funext r mode
  cases mode <;>
    simp only [ProfiLua.checkArgMode, same.checkreg, same.k, same.maxstacksize]

theorem nup (n : Nat) :
    (g.p[n]?).map (fun f => f.nups.toNat) = (f.p[n]?).map fun f => f.nups.toNat := by
  have all : g.p.map (fun f => f.nups.toNat) = f.p.map fun f => f.nups.toNat := by
    have both := congrArg (List.map UInt8.toNat) same.p
    rwa [List.map_map, List.map_map] at both
  rw [← List.getElem?_map, ← List.getElem?_map, all]

/-- The check does not see what a strip takes away: of the functions inside it
looks at the number of upvalues alone. -/
theorem symbexecOp : ProfiLua.symbexecOp g = ProfiLua.symbexecOp f := by
  funext lastpc reg pc last op
  cases op <;>
    simp only [ProfiLua.symbexecOp, same.isvararg, same.needsarg, same.fetch, same.checkreg,
      same.nups, same.k, same.code, same.maxstacksize, same.nup]

theorem symbexecStep : ProfiLua.symbexecStep g = ProfiLua.symbexecStep f := by
  funext lastpc reg pc last
  simp only [ProfiLua.symbexecStep, checkOperands, checkTest, same.fetch, same.checkreg,
    same.checkArgMode, same.setlistsBefore, same.code, same.k, same.symbexecOp]

/-- The verdict on the loaded function is that on the one that was dumped, since
every round of the walk is the same. -/
theorem symbexecFrom : ProfiLua.symbexecFrom g = ProfiLua.symbexecFrom f := by
  funext lastpc reg rounds
  induction rounds with
  | zero => rfl
  | succ rounds ih =>
      funext pc last
      simp only [ProfiLua.symbexecFrom, same.symbexecStep, ih]

end SameCode

/-- Loading keeps everything that the check of the code looks at: it may lose
names and lines, and nothing else. -/
theorem sameCode_loaded (strip : Bool) (f : Proto) (parent : Bytes) :
    SameCode f (f.loaded strip parent) := by
  cases f
  refine ⟨rfl, rfl, rfl, rfl, rfl, ?_⟩
  simp only [Proto.loaded, loadedAll_eq_map, List.map_map]
  exact List.map_congr_left fun g _ => loaded_nups strip g _

theorem Proto.check_iff {c : Prop} [Decidable c] : Proto.check c = some () ↔ c := by
  unfold Proto.check
  split_ifs with h <;> simp [h]

/-- What `precheck` asks for. -/
structure Prechecked (pt : Proto) : Prop where
  stack : pt.maxstacksize.toNat ≤ MAXSTACK
  params : pt.numparams.toNat + pt.hasarg.toNat ≤ pt.maxstacksize.toNat
  arg : pt.needsarg = false ∨ pt.hasarg = true
  upvalues : pt.upvalues.length ≤ pt.nups.toNat
  lineinfo : pt.lineinfo.length = pt.code.length ∨ pt.lineinfo.length = 0
  last : 0 < pt.code.length ∧ (pt.fetch (pt.code.length - 1)).opcode = some .return

/-- What is checked of a function before its code, one condition after the
other. -/
theorem precheck_iff {pt : Proto} : precheck pt = some () ↔ Prechecked pt := by
  have step : ∀ (c : Prop) [Decidable c] (rest : Option Unit),
      (Proto.check c >>= fun _ => rest) = some () ↔ c ∧ rest = some () := by
    intro c _ rest
    unfold Proto.check
    split_ifs with h <;> simp [h]
  rw [precheck, step, step, step, step, step, Proto.check_iff]
  constructor
  · rintro ⟨stack, params, arg, upvalues, lineinfo, last⟩
    exact ⟨stack, params, arg, upvalues, lineinfo, last⟩
  · rintro ⟨stack, params, arg, upvalues, lineinfo, last⟩
    exact ⟨stack, params, arg, upvalues, lineinfo, last⟩

/-- What a checked function has passed: the checks of its sizes, and a walk over
its code that ends. -/
theorem checked_iff {pt : Proto} :
    luaGCheckcode pt = true ↔ Prechecked pt ∧
      ∃ last, symbexecFrom pt pt.code.length NO_REG pt.code.length 0 (pt.code.length - 1) =
        some last ∧ pt.fetch last ≠ 0 := by
  rw [luaGCheckcode, symbexec]
  cases pre : precheck pt with
  | none =>
      constructor
      · intro passed
        simp at passed
      · rintro ⟨passed, -⟩
        rw [precheck_iff.mpr passed] at pre
        cases pre
  | some _ =>
      cases run : symbexecFrom pt pt.code.length NO_REG pt.code.length 0 (pt.code.length - 1) with
      | none => simp
      | some last => simp [precheck_iff.mp pre]

/-- A function that is loaded is as good as the one that was dumped; less to
debug is nothing to complain about. -/
theorem checked_loaded {f : Proto} (strip : Bool) (parent : Bytes)
    (checked : luaGCheckcode f = true) : luaGCheckcode (f.loaded strip parent) = true := by
  have same := sameCode_loaded strip f parent
  obtain ⟨pre, last, run, nonzero⟩ := checked_iff.mp checked
  refine checked_iff.mpr ⟨?_, last, ?_, ?_⟩
  · obtain ⟨stack, params, arg, upvalues, lineinfo, ended⟩ := pre
    cases f
    refine ⟨stack, params, arg, ?_, ?_, ?_⟩
    · cases strip
      · exact upvalues
      · exact Nat.zero_le _
    · cases strip
      · exact lineinfo
      · exact .inr rfl
    · rw [same.fetch, same.code]
      exact ended
  · rw [same.symbexecFrom, same.code]
    exact run
  · rw [same.fetch]
    exact nonzero

/-! ### Functions that a chunk can hold -/

/-- Every vector and every string of a function is one that a block can hold. -/
structure Proto.Fits (f : Proto) : Prop where
  source : StringFits f.source
  code : VectorFits 4 f.code
  k : VectorFits 16 f.k
  constants : ∀ o ∈ f.k, o.Fits
  p : VectorFits 4 f.p
  lineinfo : VectorFits 4 f.lineinfo
  locvars : VectorFits 12 f.locvars
  varnames : ∀ v ∈ f.locvars, StringFits v.varname
  upvalues : VectorFits 4 f.upvalues
  names : ∀ s ∈ f.upvalues, StringFits s

/-- A function of at most `room` levels, each of which the checker accepts. -/
inductive Proto.Loadable : Nat → Proto → Prop
  | mk {room : Nat} {f : Proto} (fits : f.Fits) (checked : luaGCheckcode f = true)
      (inner : ∀ g ∈ f.p, g.Loadable room) : f.Loadable (room + 1)

section Load

variable {σ : Type} {S : LoadState σ}

/-- The parts for debugging, kept or stripped. A stripped one is written as a
vector of length 0. -/
theorem stripped_vector {ws : List UInt32} (strip : Bool) (fits : VectorFits 4 ws) :
    Loads S (dumpVector (if strip then [] else ws)) (loadVector S) (if strip then [] else ws) := by
  cases strip with
  | false => exact loads_vector fits
  | true =>
      have empty : VectorFits 4 ([] : List UInt32) := by
        unfold VectorFits
        decide
      exact loads_vector empty

/-- A part that a strip leaves out comes back empty, and otherwise as it was. -/
theorem stripped_elements {α : Type} {size : Nat} {element : Loader σ α} {x : α → Encoder UInt8}
    {cs : List α} (strip : Bool) (fits : VectorFits size cs) (four : 4 ≤ size)
    (all : ∀ c ∈ cs, Loads S (x c) element c) :
    Loads S (dumpInt (if strip then [] else cs).length ++ .each x (if strip then [] else cs))
      (loadElements S size element) (if strip then [] else cs) := by
  have kept : VectorFits size (if strip then [] else cs) := by
    unfold VectorFits at fits ⊢
    cases strip with
    | false => exact fits
    | true =>
        rw [if_pos rfl, List.length_nil]
        omega
  have loads := loads_elements (g := id) kept four fun c mem => all c <| by
    cases strip with
    | false => exact mem
    | true => exact absurd mem (by simp)
  rwa [List.map_id] at loads

/-- The source of a function, of which the parent's is not written again. No
source comes back as the parent's, so what was left out is there again. -/
theorem loaded_source {strip : Bool} {source outer : Option Bytes} {parent : Bytes}
    (known : strip = false → ∀ s ∈ outer, s = parent) :
    (if source = outer ∨ strip then none else source).getD parent =
      if strip then parent else source.getD parent := by
  cases strip with
  | true => simp
  | false =>
      by_cases same : source = outer
      · subst same
        cases source with
        | none => rfl
        | some s => simp [known rfl s rfl]
      · simp [same]

/-- A function that a chunk can hold is loaded as it was dumped, part by part
and the functions inside it with their own parts. The levels that the loader has
left are enough for it. -/
theorem loads_function {room : Nat} {f : Proto} (loadable : f.Loadable room) (strip : Bool)
    {outer : Option Bytes} {parent : Bytes} (known : strip = false → ∀ s ∈ outer, s = parent) :
    Loads S (dumpFunction strip f outer) (loadFunction S room parent) (f.loaded strip parent) := by
  induction loadable generalizing outer parent with
  | @mk room f fits checked _ ih =>
      have result := checked_loaded strip parent checked
      obtain ⟨source, linedefined, lastlinedefined, nups, numparams, isVararg, maxstacksize, code,
        k, p, lineinfo, locvars, upvalues⟩ := f
      rw [Proto.loaded] at result ⊢
      rw [dumpFunction, dumpFunctions_eq_each, dumpDebug, loadFunction]
      have written : StringFits (if source = outer ∨ strip = true then none else source) := by
        split_ifs
        · exact stringFits_none
        · exact fits.source
      refine (loads_string written).append ?_
      rw [loaded_source known]
      set s := if strip then parent else source.getD parent with sEq
      refine (loads_int linedefined).append ((loads_int lastlinedefined).append ?_)
      refine (loads_byte nups).append ((loads_byte numparams).append ?_)
      refine (loads_byte isVararg).append ((loads_byte maxstacksize).append ?_)
      refine (loads_vector fits.code).append ?_
      rw [← Encoder.append_assoc, ← Encoder.append_assoc (dumpInt p.length)]
      have constants := loads_elements (g := id) fits.k (by omega) fun o mem =>
        loads_constant (S := S) (fits.constants o mem)
      rw [List.map_id] at constants
      refine constants.append ?_
      have inner : ∀ g ∈ p, Loads S (dumpFunction strip g source) (loadFunction S room s)
          (g.loaded strip s) := by
        intro g mem
        apply ih g mem
        -- the inner functions are told the same parent when dumped and when loaded
        rintro rfl t rfl
        rw [sEq]
        rfl
      refine (loads_elements fits.p (le_refl 4) inner).append ?_
      rw [← loadedAll_eq_map]
      refine (stripped_vector strip fits.lineinfo).append ?_
      rw [← Encoder.append_assoc]
      refine (stripped_elements strip fits.locvars (by omega) fun v mem =>
        loads_locVar (fits.varnames v mem)).append ?_
      refine (stripped_elements strip fits.upvalues (by omega) fun t mem =>
        loads_string (fits.names t mem)).finish ?_
      rw [if_pos result]
      exact .pure _

/-! ### What is accepted -/

/-- Whatever the bytes are, a string that was loaded could have been dumped: its
length has passed the test of the block. -/
theorem loadString_yields : Decoder.Yields (loadString S) StringFits := by
  refine (Decoder.Yields.any _).bind fun size _ => ?_
  split_ifs with zero opens fits
  · exact .pure stringFits_none
  · refine (Decoder.Yields.any _).bind fun s _ => .pure ?_
    rintro t ⟨⟩
    rw [List.length_take]
    omega
  · exact (Decoder.Yields.any _).bind fun s _ => .error _
  · exact .error _

/-- The check of the size of a vector. -/
theorem luaMNewvector_yields (n e : Nat) :
    Decoder.Yields (luaMNewvector n e : Loader σ Unit) fun _ => n + 1 ≤ MAX_SIZET / e := by
  unfold luaMNewvector
  split_ifs with fits
  · exact .pure fits
  · exact .error _

theorem words_length (n : Nat) (b : Bytes) : (words n b).length = n := by
  induction n generalizing b with
  | zero => rfl
  | succ n ih => rw [words, List.length_cons, ih]

theorem loadVector_yields : Decoder.Yields (loadVector S) (VectorFits 4) := by
  refine (Decoder.Yields.any _).bind fun n _ => ?_
  refine (luaMNewvector_yields n 4).bind fun _ fits => ?_
  refine (Decoder.Yields.any _).bind fun b _ => .pure ?_
  rwa [VectorFits, words_length]

theorem loadElements_yields {α : Type} {size : Nat} {element : Loader σ α} {P : α → Prop}
    (each : Decoder.Yields element P) :
    Decoder.Yields (loadElements S size element) fun xs =>
      VectorFits size xs ∧ ∀ x ∈ xs, P x := by
  refine (Decoder.Yields.any _).bind fun n _ => ?_
  refine (luaMNewvector_yields n size).bind fun _ fits => ?_
  intro z xs z' result
  obtain ⟨length, all⟩ := each.times n z xs z' result
  exact ⟨by rwa [VectorFits, length], all⟩

theorem loadConstant_yields : Decoder.Yields (loadConstant S) Constant.Fits := by
  refine (Decoder.Yields.any _).bind fun t _ => ?_
  split
  · exact .pure trivial
  · exact (Decoder.Yields.any _).bind fun _ _ => .pure trivial
  · exact (Decoder.Yields.any _).bind fun _ _ => .pure trivial
  · exact loadString_yields.bind fun s fits => .pure fits
  · exact .error _

theorem loadLocVar_yields : Decoder.Yields (loadLocVar S) fun v => StringFits v.varname :=
  loadString_yields.bind fun _ fits => (Decoder.Yields.any _).bind fun _ _ =>
    (Decoder.Yields.any _).bind fun _ _ => .pure fits

/-- What is accepted can be held by a chunk, and is what comes back from it. -/
theorem loadFunction_yields {room : Nat} {parent : Bytes} (fits : StringFits (some parent)) :
    Decoder.Yields (loadFunction S room parent) fun f =>
      f.Loadable room ∧ ∀ outer, f.loaded false outer = f := by
  induction room generalizing parent with
  | zero => exact .error _
  | succ room ih =>
      refine loadString_yields.bind fun source known => ?_
      have named : StringFits (some (source.getD parent)) := by
        cases source with
        | none => exact fits
        | some s => exact known
      refine (Decoder.Yields.any _).bind fun linedefined _ => ?_
      refine (Decoder.Yields.any _).bind fun lastlinedefined _ => ?_
      refine (Decoder.Yields.any _).bind fun nups _ => ?_
      refine (Decoder.Yields.any _).bind fun numparams _ => ?_
      refine (Decoder.Yields.any _).bind fun isVararg _ => ?_
      refine (Decoder.Yields.any _).bind fun maxstacksize _ => ?_
      refine loadVector_yields.bind fun code codeFits => ?_
      refine (loadElements_yields loadConstant_yields).bind ?_
      rintro k ⟨kFits, constants⟩
      refine (loadElements_yields (ih named)).bind ?_
      rintro p ⟨pFits, inner⟩
      refine loadVector_yields.bind fun lineinfo lineinfoFits => ?_
      refine (loadElements_yields loadLocVar_yields).bind ?_
      rintro locvars ⟨locvarsFits, varnames⟩
      refine (loadElements_yields loadString_yields).bind ?_
      rintro upvalues ⟨upvaluesFits, names⟩
      dsimp only
      split_ifs with checked
      · refine .pure ⟨?_, fun outer => ?_⟩
        · exact .mk ⟨named, codeFits, kFits, constants, pFits, lineinfoFits, locvarsFits, varnames,
            upvaluesFits, names⟩ checked fun g mem => (inner g mem).1
        · simp only [Proto.loaded, loadedAll_eq_map, Option.getD_some, Bool.false_eq_true, if_false]
          rw [List.map_congr_left fun g mem => (inner g mem).2 _, List.map_id']
      · exact .error _

end Load

/-! ### Chunks -/

section Chunks

variable {σ : Type} {reader : Reader σ}

/-- The header is compared byte by byte. -/
theorem loads_header {S : LoadState σ} : Loads S (.block luaUHeader) (loadHeader S) () := by
  have takes : LoadsBytes S luaUHeader (loadBlock S 12) luaUHeader := loadBlock_takes rfl
  refine (Carries.block takes).finish ?_
  rw [if_neg (not_not.mpr rfl)]
  exact .pure ()

theorem loads_chunk {S : LoadState σ} {room : Nat} {f : Proto} (loadable : f.Loadable room)
    (strip : Bool) :
    Loads S (.block luaUHeader ++ dumpFunction strip f none)
      (loadHeader S >>= fun _ => loadFunction S room (lit "=?")) (f.loaded strip (lit "=?")) := by
  apply loads_header.append
  apply loads_function loadable
  intro _ s mem
  cases mem

/-- The blocks that a chunk is written in do not depend on who loads it. -/
theorem chunk_blocks {room : Nat} {f : Proto} (loadable : f.Loadable room) (strip : Bool) :
    ∃ blocks, (Encoder.block luaUHeader ++ dumpFunction strip f none).Emits blocks ∧
      ∀ (σ : Type) (S : LoadState σ), LoadsBytes S blocks.flatten
        (loadHeader S >>= fun _ => loadFunction S room (lit "=?"))
        (f.loaded strip (lit "=?")) := by
  obtain ⟨blocks, emits, -⟩ := loads_chunk (S := ⟨fun _ => ([], ()), []⟩) loadable strip
  refine ⟨blocks, emits, fun σ S => ?_⟩
  obtain ⟨blocks', emits', takes⟩ := loads_chunk (S := S) loadable strip
  rwa [emits.unique emits']

/-- A reader that has the pieces of a chunk, one after the other. -/
def pieces : Reader (List Bytes)
  | [] => ([], [])
  | b :: bs => (b, bs)

theorem feeds_bytes (w : Bytes) :
    (zio pieces).Feeds ⟨[], w.map fun b => [b]⟩ w ⟨[], []⟩ := by
  induction w with
  | nil => exact .nil _
  | cons b w ih => exact .cons rfl ih

/-- `return`, with constants of each kind. -/
def leafFunction : Proto :=
  ⟨none, 1, 1, 0, 0, 0, 2, [0x0080001E],
    [.nil, .boolean true, .number 0x3FF0000000000000, .string (some (lit "x"))], [], [1],
    [⟨some (lit "a"), 0, 1⟩], []⟩

/-- A function around it. -/
def nestedFunction : Proto :=
  ⟨some (lit "@f"), 0, 0, 0, 0, 2, 2, [0x00000024, 0x0080001E], [], [leafFunction], [1, 1], [], []⟩

/-- The sample function has all limits kept. -/
theorem nestedFunction_loadable : nestedFunction.Loadable 200 := by
  refine .mk ?_ (by decide) ?_
  · constructor <;> decide
  · intro g mem
    obtain rfl := List.mem_singleton.mp mem
    refine .mk ?_ (by decide) fun g mem => absurd mem List.not_mem_nil
    constructor <;> decide

end Chunks

section Whole

variable {nCcalls : Nat} {f : Proto}

/-- A chunk that is dumped reaches every writer in the same blocks, until it refuses
one; however a reader hands these bytes out, they are loaded as the function, with
its source filled in and stripped of what was asked for; and a reader that ends
before the last of them gets "unexpected end". -/
theorem chunk_round_trip (loadable : f.Loadable (LUAI_MAXCCALLS - nCcalls)) (strip : Bool) :
    ∃ blocks,
      (∀ (δ : Type) (writer : Sink δ UInt8) (data : δ),
        luaUDump f writer data strip = deliver writer blocks data) ∧
      ∀ (σ : Type) (reader : Reader σ) (name : Bytes) (z : Zio σ),
        (∀ z', (zio reader).Feeds z blocks.flatten z' →
          luaUUndump reader nCcalls name z = .ok (f.loaded strip (lit "=?"), z')) ∧
        ((zio reader).Short z blocks.flatten →
          luaUUndump reader nCcalls name z =
            .error (LoadState.error ⟨reader, chunkName name⟩ "unexpected end")) := by
  obtain ⟨blocks, emits, takes⟩ := chunk_blocks loadable strip
  refine ⟨blocks, ?_, ?_⟩
  · intro δ writer data
    simp only [luaUDump, emits.deliver]
  · intro σ reader name z
    have loads := takes σ ⟨reader, chunkName name⟩
    exact ⟨fun z' fed => loads.reads z z' fed, fun short => loads.starves z short⟩

theorem chunk_round_trip_nested :
    ∃ chunk : Bytes, luaUUndump pieces 0 (lit "@f") ⟨[], chunk.map fun b => [b]⟩ =
      .ok (nestedFunction.loaded false (lit "=?"), ⟨[], []⟩) := by
  have loadable : nestedFunction.Loadable (LUAI_MAXCCALLS - 0) := nestedFunction_loadable
  obtain ⟨blocks, -, load⟩ := chunk_round_trip loadable false
  exact ⟨blocks.flatten, (load _ pieces (lit "@f") _).1 _ (feeds_bytes blocks.flatten)⟩

/-- What `luaU_undump` accepts, from any reader, is of checked functions only; and
once dumped again it is loaded as itself. -/
theorem chunk_accepted {σ : Type} {reader : Reader σ} {name : Bytes} {z z' : Zio σ}
    (accepted : luaUUndump reader nCcalls name z = .ok (f, z')) :
    f.Loadable (LUAI_MAXCCALLS - nCcalls) ∧
      ∃ blocks,
        (∀ (δ : Type) (writer : Sink δ UInt8) (data : δ),
          luaUDump f writer data false = deliver writer blocks data) ∧
        ∀ (τ : Type) (reader' : Reader τ) (name' : Bytes) (y y' : Zio τ),
          (zio reader').Feeds y blocks.flatten y' →
            luaUUndump reader' nCcalls name' y = .ok (f, y') := by
  obtain ⟨_, z₁, -, loaded⟩ := Decoder.of_bind_ok accepted
  have named : StringFits (some (lit "=?")) := by
    rintro t ⟨⟩
    decide
  obtain ⟨loadable, itself⟩ := loadFunction_yields named z₁ f z' loaded
  obtain ⟨blocks, emits, takes⟩ := chunk_blocks loadable false
  refine ⟨loadable, blocks, ?_, ?_⟩
  · intro δ writer data
    simp only [luaUDump, emits.deliver]
  · intro τ reader' name' y y' fed
    have loads := (takes τ ⟨reader', chunkName name'⟩).reads y y' fed
    rwa [itself] at loads

theorem chunk_accepted_nested :
    ∃ (chunk : List Bytes) (f : Proto),
      luaUUndump pieces 0 (lit "@f") ⟨[], chunk⟩ = .ok (f, ⟨[], []⟩) ∧ f.Loadable 200 := by
  obtain ⟨blocks, -, takes⟩ := chunk_blocks nestedFunction_loadable true
  have accepted : luaUUndump pieces 0 (lit "@f") ⟨[], blocks.flatten.map fun b => [b]⟩ =
      .ok (nestedFunction.loaded true (lit "=?"), ⟨[], []⟩) :=
    (takes _ ⟨pieces, chunkName (lit "@f")⟩).reads _ _ (feeds_bytes blocks.flatten)
  exact ⟨_, _, accepted, (chunk_accepted accepted).1⟩

end Whole

end ProfiLua

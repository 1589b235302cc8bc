import Mathlib.Data.List.Basic
import Mathlib.Data.Nat.ModEq

/-!
Data that is written to a sink in blocks and read back from a supply of symbols.

* `Supply` gives one symbol after the other; `Supply.Feeds` says which come next,
  `Supply.Short` that the supply ends within a word.
* `Decoder` reads from a supply and may fail. `Decoder.Takes`: it reads a word as a
  value and leaves what follows alone, and fails in one way on a word that is cut
  short. `Decoder.Yields`: all that it accepts has a property.
* `Sink` takes blocks and may refuse one; an `Encoder` writes blocks until then.
  `Encoder.Emits`: whatever the sink, the encoder writes these blocks.
* `Carries`: what an encoder writes, a decoder reads as a value. Its rules follow
  the way encoders and decoders are put together.
-/

namespace Program

variable {ι ε α β γ : Type}

/-! ### Supplies -/

/-- Where symbols come from. -/
structure Supply (ι β : Type) where
  next : ι → Option (β × ι)

namespace Supply

variable {S : Supply ι β} {i j k : ι} {b : β} {u v w : List β}

/-- From `i` come the symbols of the word, then those from the last state. -/
inductive Feeds (S : Supply ι β) : ι → List β → ι → Prop
  | nil (i : ι) : S.Feeds i [] i
  | cons {i j k : ι} {b : β} {w : List β} (head : S.next i = some (b, j))
      (tail : S.Feeds j w k) : S.Feeds i (b :: w) k

/-- From `i` come the first symbols of the word, and then no more. -/
inductive Short (S : Supply ι β) : ι → List β → Prop
  | stop {i : ι} (b : β) (w : List β) (head : S.next i = none) : S.Short i (b :: w)
  | cons {i j : ι} {b : β} {w : List β} (head : S.next i = some (b, j))
      (tail : S.Short j w) : S.Short i (b :: w)

theorem feeds_append : S.Feeds i (u ++ v) k ↔ ∃ j, S.Feeds i u j ∧ S.Feeds j v k := by
  induction u generalizing i with
  | nil =>
      constructor
      · intro fed
        exact ⟨i, .nil i, fed⟩
      · rintro ⟨j, first, second⟩
        cases first
        exact second
  | cons b u ih =>
      constructor
      · rintro (_ | ⟨head, tail⟩)
        obtain ⟨j, first, second⟩ := ih.mp tail
        exact ⟨j, .cons head first, second⟩
      · rintro ⟨j, _ | ⟨head, tail⟩, second⟩
        exact .cons head (ih.mpr ⟨j, tail, second⟩)

theorem short_append : S.Short i (u ++ v) ↔ S.Short i u ∨ ∃ j, S.Feeds i u j ∧ S.Short j v := by
  induction u generalizing i with
  | nil =>
      constructor
      · intro short
        exact .inr ⟨i, .nil i, short⟩
      · rintro (short | ⟨j, first, short⟩)
        · cases short
        · cases first
          exact short
  | cons b u ih =>
      constructor
      · intro short
        cases short with
        | stop _ _ head => exact .inl (.stop b u head)
        | cons head tail =>
            rcases ih.mp tail with short | ⟨j, first, short⟩
            · exact .inl (.cons head short)
            · exact .inr ⟨j, .cons head first, short⟩
      · rintro (short | ⟨j, _ | ⟨head, tail⟩, short⟩)
        · cases short with
          | stop _ _ head => exact .stop b _ head
          | cons head tail => exact .cons head (ih.mpr (.inl tail))
        · exact .cons head (ih.mpr (.inr ⟨j, tail, short⟩))

theorem Short.not_nil (short : S.Short i []) : False := nomatch short

/-- A state gives one word of each length. -/
theorem Feeds.unique {j' : ι} (fed : S.Feeds i u j) (fed' : S.Feeds i v j')
    (same : u.length = v.length) : u = v ∧ j = j' := by
  induction fed generalizing v with
  | nil i =>
      cases fed' with
      | nil _ => exact ⟨rfl, rfl⟩
      | cons _ _ => simp at same
  | cons head tail ih =>
      cases fed' with
      | nil _ => simp at same
      | cons head' tail' =>
          rw [head, Option.some.injEq, Prod.mk.injEq] at head'
          obtain ⟨rfl, rfl⟩ := head'
          obtain ⟨rfl, rfl⟩ := ih tail' (by simpa using same)
          exact ⟨rfl, rfl⟩

/-- A supply that has given a word does not end within one of its length. -/
theorem Feeds.not_short (fed : S.Feeds i u j) (same : u.length = v.length) : ¬ S.Short i v := by
  induction fed generalizing v with
  | nil i =>
      rw [List.length_nil, eq_comm, List.length_eq_zero_iff] at same
      rw [same]
      exact Short.not_nil
  | cons head tail ih =>
      intro short
      cases short with
      | stop _ _ head' => rw [head] at head'; cases head'
      | cons head' tail' =>
          rw [head, Option.some.injEq, Prod.mk.injEq] at head'
          obtain ⟨rfl, rfl⟩ := head'
          exact ih (by simpa using same) tail'

end Supply

/-! ### Decoders -/

/-- Reads a value from a supply, or fails. -/
abbrev Decoder (ι ε α : Type) := StateT ι (Except ε) α

namespace Decoder

variable {S : Supply ι β} {e : ε} {d : Decoder ι ε α} {f : α → Decoder ι ε γ}

theorem bind_ok {i j : ι} {a : α} (first : d i = .ok (a, j)) : (d >>= f) i = f a j := by
  show (d i >>= fun p => f p.1 p.2) = f a j
  rw [first]
  rfl

theorem bind_error {i : ι} (first : d i = .error e) : (d >>= f) i = .error e := by
  show (d i >>= fun p => f p.1 p.2) = .error e
  rw [first]
  rfl

/-- What both parts of a successful sequence did. -/
theorem of_bind_ok {i k : ι} {c : γ} (both : (d >>= f) i = .ok (c, k)) :
    ∃ a j, d i = .ok (a, j) ∧ f a j = .ok (c, k) := by
  cases first : d i with
  | error e => rw [bind_error first] at both; cases both
  | ok p => rw [bind_ok first] at both; exact ⟨p.1, p.2, rfl, both⟩

/-- One value after the other. -/
def times (d : Decoder ι ε α) : Nat → Decoder ι ε (List α)
  | 0 => pure []
  | n + 1 => do
      let a ← d
      let as ← times d n
      return a :: as

/-- `d` reads `w` as `a`, and where the supply ends within `w` it fails with `e`. -/
structure Takes (S : Supply ι β) (e : ε) (d : Decoder ι ε α) (w : List β) (a : α) : Prop where
  reads : ∀ i j, S.Feeds i w j → d i = .ok (a, j)
  starves : ∀ i, S.Short i w → d i = .error e

namespace Takes

variable {u v w : List β} {a : α} {c : γ}

theorem pure (a : α) : Takes S e (Pure.pure a : Decoder ι ε α) [] a where
  reads i j fed := by
    cases fed
    rfl
  starves i short := short.not_nil.elim

theorem bind (first : Takes S e d u a) (second : Takes S e (f a) v c) :
    Takes S e (d >>= f) (u ++ v) c where
  reads i k fed := by
    obtain ⟨j, fed, fed'⟩ := Supply.feeds_append.mp fed
    rw [bind_ok (first.reads i j fed)]
    exact second.reads j k fed'
  starves i short := by
    rcases Supply.short_append.mp short with short | ⟨j, fed, short⟩
    · exact bind_error (first.starves i short)
    · rw [bind_ok (first.reads i j fed)]
      exact second.starves j short

/-- A value that is computed from what was read. -/
theorem map (g : α → γ) (first : Takes S e d w a) :
    Takes S e (d >>= fun a => Pure.pure (g a)) w (g a) := by
  have both : Takes S e (d >>= fun a => Pure.pure (g a)) (w ++ []) (g a) :=
    first.bind (pure (g a))
  rwa [List.append_nil] at both

end Takes

/-- What `d` accepts has the property `P`. -/
def Yields (d : Decoder ι ε α) (P : α → Prop) : Prop :=
  ∀ i a j, d i = .ok (a, j) → P a

namespace Yields

variable {P Q : α → Prop} {R : γ → Prop}

theorem pure {a : α} (h : P a) : Yields (Pure.pure a : Decoder ι ε α) P := by
  intro i a' j result
  cases result
  exact h

theorem error (e : ε) : Yields (fun _ => .error e : Decoder ι ε α) P := by
  intro i a j result
  cases result

theorem bind (first : Yields d P) (second : ∀ a, P a → Yields (f a) R) :
    Yields (d >>= f) R := by
  intro i c k both
  obtain ⟨a, j, one, two⟩ := of_bind_ok both
  exact second a (first i a j one) j c k two

theorem any (d : Decoder ι ε α) : Yields d fun _ => True := fun _ _ _ _ => trivial

theorem times (each : Yields d P) (n : Nat) :
    Yields (d.times n) fun as => as.length = n ∧ ∀ a ∈ as, P a := by
  induction n with
  | zero => exact pure ⟨rfl, by simp⟩
  | succ n ih =>
      refine each.bind fun a pa => ih.bind ?_
      rintro as ⟨length, all⟩
      exact pure ⟨by rw [List.length_cons, length], List.forall_mem_cons.mpr ⟨pa, all⟩⟩

end Yields

end Decoder

/-! ### Encoders -/

/-- Takes a block of symbols; the status is not 0 when it was refused. -/
abbrev Sink (δ β : Type) := List β → δ → Int × δ

/-- The sink's data, and the status of the last block that was written. -/
structure Output (δ : Type) where
  status : Int
  data : δ

/-- Writes to any sink. -/
def Encoder (β : Type) : Type 1 := ∀ δ : Type, Sink δ β → Output δ → Output δ

namespace Encoder

/-- Write a block, unless one was refused. -/
def block (w : List β) : Encoder β := fun _ sink o =>
  if o.status = 0 then ⟨(sink w o.data).1, (sink w o.data).2⟩ else o

/-- Write nothing. -/
def nothing : Encoder β := fun _ _ o => o

/-- One after the other. -/
instance : Append (Encoder β) := ⟨fun x y δ sink o => y δ sink (x δ sink o)⟩

theorem append_apply (x y : Encoder β) {δ : Type} (sink : Sink δ β) (o : Output δ) :
    (x ++ y) δ sink o = y δ sink (x δ sink o) := rfl

theorem append_assoc (x y z : Encoder β) : (x ++ y) ++ z = x ++ (y ++ z) := rfl

/-- Each value of a list. -/
def each (x : α → Encoder β) : List α → Encoder β
  | [] => nothing
  | a :: as => x a ++ each x as

/-- Whatever the sink, `x` writes the blocks `ws`. -/
def Emits (x : Encoder β) (ws : List (List β)) : Prop :=
  ∀ (δ : Type) (sink : Sink δ β) (o : Output δ),
    x δ sink o = ws.foldl (fun o w => block w δ sink o) o

theorem emits_nothing : Emits (nothing : Encoder β) [] := fun _ _ _ => rfl

theorem emits_block (w : List β) : Emits (block w) [w] := fun _ _ _ => rfl

theorem Emits.append {x y : Encoder β} {us vs : List (List β)} (first : x.Emits us)
    (second : y.Emits vs) : (x ++ y).Emits (us ++ vs) := by
  intro δ sink o
  rw [append_apply, second, first, List.foldl_append]

end Encoder

/-- Hand over blocks until one is refused: the status of the refusal, or 0, and
the sink's data. -/
def deliver {δ : Type} (sink : Sink δ β) : List (List β) → δ → Int × δ
  | [], data => (0, data)
  | w :: ws, data =>
      if (sink w data).1 = 0 then deliver sink ws (sink w data).2 else sink w data

namespace Encoder

theorem foldl_refused {δ : Type} (sink : Sink δ β) {o : Output δ} (refused : o.status ≠ 0)
    (ws : List (List β)) : ws.foldl (fun o w => block w δ sink o) o = o := by
  induction ws with
  | nil => rfl
  | cons w ws ih => rw [List.foldl_cons, block, if_neg refused, ih]

/-- An encoder that starts well hands its blocks over until one is refused. -/
theorem Emits.deliver {x : Encoder β} {ws : List (List β)} (emits : x.Emits ws) {δ : Type}
    (sink : Sink δ β) (data : δ) :
    x δ sink ⟨0, data⟩ = ⟨(deliver sink ws data).1, (deliver sink ws data).2⟩ := by
  rw [emits]
  clear emits
  induction ws generalizing data with
  | nil => rfl
  | cons w ws ih =>
      rw [List.foldl_cons, block, if_pos rfl, Program.deliver]
      split_ifs with accepted
      · rw [accepted, ih]
      · exact foldl_refused sink accepted ws

/-- Keeps the blocks. -/
def recorder : Sink (List (List β)) β := fun w ws => (0, ws ++ [w])

theorem deliver_recorder (ws data : List (List β)) :
    Program.deliver recorder ws data = (0, data ++ ws) := by
  induction ws generalizing data with
  | nil => rw [List.append_nil]; rfl
  | cons w ws ih =>
      have accepted : (recorder w data).1 = 0 := rfl
      rw [Program.deliver, if_pos accepted, ih, recorder, List.append_assoc,
        List.singleton_append]

/-- An encoder writes one list of blocks, since a recorder would show the
difference. -/
theorem Emits.unique {x : Encoder β} {us vs : List (List β)} (first : x.Emits us)
    (second : x.Emits vs) : us = vs := by
  have same := (first.deliver recorder []).symm.trans (second.deliver recorder [])
  rw [deliver_recorder, deliver_recorder] at same
  simpa using same

end Encoder

/-! ### From encoders to decoders -/

/-- What `x` writes, `d` reads as `a`; cut short, it fails with `e`. -/
def Carries (S : Supply ι β) (e : ε) (x : Encoder β) (d : Decoder ι ε α) (a : α) : Prop :=
  ∃ ws, x.Emits ws ∧ d.Takes S e ws.flatten a

namespace Carries

variable {S : Supply ι β} {e : ε} {x y : Encoder β} {d : Decoder ι ε α}
  {f : α → Decoder ι ε γ} {a : α} {c : γ}

theorem block {w : List β} (takes : d.Takes S e w a) : Carries S e (Encoder.block w) d a :=
  ⟨[w], Encoder.emits_block w, by rwa [List.flatten_singleton]⟩

theorem nothing (a : α) : Carries S e Encoder.nothing (pure a : Decoder ι ε α) a :=
  ⟨[], Encoder.emits_nothing, .pure a⟩

/-- A part that is written first is read first, and the rest is read by a
decoder that may depend on it. -/
theorem append (first : Carries S e x d a) (second : Carries S e y (f a) c) :
    Carries S e (x ++ y) (d >>= f) c := by
  obtain ⟨us, emits, takes⟩ := first
  obtain ⟨vs, emits', takes'⟩ := second
  refine ⟨us ++ vs, emits.append emits', ?_⟩
  rw [List.flatten_append]
  exact takes.bind takes'

/-- The last part of a sequence, after which nothing is read. -/
theorem finish (last : Carries S e x d a) (rest : (f a).Takes S e [] c) :
    Carries S e x (d >>= f) c := by
  obtain ⟨ws, emits, takes⟩ := last
  have both := takes.bind rest
  rw [List.append_nil] at both
  exact ⟨ws, emits, both⟩

/-- The last part of a sequence, with a value computed from it. -/
theorem map (g : α → γ) (last : Carries S e x d a) :
    Carries S e x (d >>= fun a => pure (g a)) (g a) :=
  last.finish (.pure (g a))

/-- The values of a list, one after the other. -/
theorem each {x : γ → Encoder β} {g : γ → α} {cs : List γ}
    (all : ∀ c ∈ cs, Carries S e (x c) d (g c)) :
    Carries S e (Encoder.each x cs) (d.times cs.length) (cs.map g) := by
  induction cs with
  | nil => exact nothing []
  | cons c cs ih =>
      exact (all c (by simp)).append
        ((ih fun c' mem => all c' (List.mem_cons_of_mem c mem)).map (g c :: ·))

end Carries

/-! ### Little-endian words -/

/-- The `size` bytes of a word. -/
def littleEndian : Nat → Nat → List UInt8
  | 0, _ => []
  | size + 1, n => UInt8.ofNat n :: littleEndian size (n / 256)

/-- The word that bytes are. -/
def ofLittleEndian : List UInt8 → Nat
  | [] => 0
  | b :: bs => b.toNat + 256 * ofLittleEndian bs

@[simp] theorem littleEndian_length (size n : Nat) : (littleEndian size n).length = size := by
  induction size generalizing n with
  | zero => rfl
  | succ size ih => rw [littleEndian, List.length_cons, ih]

/-- A word comes back modulo what fits into its bytes. -/
theorem ofLittleEndian_littleEndian (size n : Nat) :
    ofLittleEndian (littleEndian size n) = n % 256 ^ size := by
  induction size generalizing n with
  | zero => rw [pow_zero, Nat.mod_one]; rfl
  | succ size ih =>
      have low : (UInt8.ofNat n).toNat = n % 256 := UInt8.toNat_ofNat'
      rw [littleEndian, ofLittleEndian, ih, low, pow_succ', Nat.mod_mul]

end Program

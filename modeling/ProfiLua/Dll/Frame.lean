import ProfiLua.Dll.Entry

/-!
What the parts of `profilua.c` leave alone, for every script.

A part that runs with `L` open (or closed) keeps it so and never meets a NULL
state, and it changes only some of the globals (`Within`). Which ones is a
relation `R`: a preorder that does not look at `L` and what the record gains is a
`Frame`, an `OutputFrame` if it does not look at the error flag and the host's
arrays either (a `WritingFrame` may look at the inputs), and a `NameFrame` if it
does not look at the markers.
-/

namespace ProfiLua

open Program

variable {σ α β : Type}

/-! ### Frames -/

/-- A preorder that the parts of the DLL stay in while `L` is open, as long as the
events they note are allowed. -/
structure Frame (Allowed : Event → Prop) (R : Dll σ → Dll σ → Prop) : Prop where
  refl : ∀ s, R s s
  trans : ∀ s t u, R s t → R t u → R s u
  setL : ∀ s l, R s { s with L := l }
  balanced : ∀ s b, R s { s with balanced := b }
  note : ∀ s events, (∀ e ∈ events, Allowed e) → R s (s.note events)

/-- A frame that does not look at the epoch, for opening and closing. -/
structure OpeningFrame (Allowed : Event → Prop) (R : Dll σ → Dll σ → Prop) : Prop
    extends Frame Allowed R where
  epoch : ∀ s, R s { s with epoch := s.epoch + 1 }

/-- A frame that does not look at the markers, for the name queries. -/
structure NameFrame (Allowed : Event → Prop) (R : Dll σ → Dll σ → Prop) : Prop
    extends OpeningFrame Allowed R where
  markers : ∀ s ins outs, R s { s with gInStrMarker := ins, gOutStrMarker := outs }

/-- A frame that does not look at what the DLL writes for the host. -/
structure OutputFrame (Allowed : Event → Prop) (R : Dll σ → Dll σ → Prop) : Prop
    extends Frame Allowed R where
  gERROR : ∀ s e, R s { s with gERROR := e }
  host : ∀ s h, R s { s with host := h }

/-- A frame that does not look at what the DLL writes for the host; it never
writes the inputs. -/
structure WritingFrame (Allowed : Event → Prop) (R : Dll σ → Dll σ → Prop) : Prop
    extends Frame Allowed R where
  gERROR : ∀ s e, R s { s with gERROR := e }
  written : ∀ s h, h.pInput = s.host.pInput → R s { s with host := h }

/-- What does not look at the host's arrays does not look at single writes to them. -/
theorem OutputFrame.writing {Allowed : Event → Prop} {R : Dll σ → Dll σ → Prop}
    (F : OutputFrame Allowed R) : WritingFrame Allowed R where
  toFrame := F.toFrame
  gERROR := F.gERROR
  written := fun s h _ => F.host s h

/-- The globals that only the session control changes. -/
structure SameFlags (s t : Dll σ) : Prop where
  gNumInputs : t.gNumInputs = s.gNumInputs
  gNumOutputs : t.gNumOutputs = s.gNumOutputs
  gFileNum : t.gFileNum = s.gFileNum
  gConsole : t.gConsole = s.gConsole
  gConsoleTop : t.gConsoleTop = s.gConsoleTop
  console : t.console = s.console
  gCSimStartOverride : t.gCSimStartOverride = s.gCSimStartOverride

/-- The same, with the error flag and the host's arrays. -/
structure SameControl (s t : Dll σ) : Prop extends SameFlags s t where
  gERROR : t.gERROR = s.gERROR
  host : t.host = s.host

/-- The record gained events, all of them allowed, in epochs from then to now. -/
structure Grows (Allowed : Event → Prop) (s t : Dll σ) : Prop where
  epoch : s.epoch ≤ t.epoch
  trace : ∃ gained, t.trace = s.trace ++ gained ∧
    ∀ e ∈ gained, Allowed e.2 ∧ s.epoch ≤ e.1 ∧ e.1 ≤ t.epoch

theorem SameFlags.refl (s : Dll σ) : SameFlags s s := ⟨rfl, rfl, rfl, rfl, rfl, rfl, rfl⟩

theorem SameControl.refl (s : Dll σ) : SameControl s s := ⟨.refl s, rfl, rfl⟩

theorem Grows.of_same {Allowed : Event → Prop} {s t : Dll σ} (epoch : t.epoch = s.epoch)
    (trace : t.trace = s.trace) : Grows Allowed s t :=
  ⟨Nat.le_of_eq epoch.symm, [], by rw [trace, List.append_nil], by simp⟩

theorem Grows.refl (Allowed : Event → Prop) (s : Dll σ) : Grows Allowed s s := .of_same rfl rfl

/-- The flags stay the same over two steps if each keeps them. -/
theorem SameFlags.trans {s t u : Dll σ} (h : SameFlags s t) (k : SameFlags t u) : SameFlags s u :=
  ⟨k.gNumInputs.trans h.gNumInputs, k.gNumOutputs.trans h.gNumOutputs,
    k.gFileNum.trans h.gFileNum, k.gConsole.trans h.gConsole, k.gConsoleTop.trans h.gConsoleTop,
    k.console.trans h.console, k.gCSimStartOverride.trans h.gCSimStartOverride⟩

theorem SameControl.trans {s t u : Dll σ} (h : SameControl s t) (k : SameControl t u) :
    SameControl s u :=
  ⟨h.toSameFlags.trans k.toSameFlags, k.gERROR.trans h.gERROR, k.host.trans h.host⟩

/-- What two steps note is noted in order, with the epochs in order as well. -/
theorem Grows.trans {Allowed : Event → Prop} {s t u : Dll σ} (h : Grows Allowed s t)
    (k : Grows Allowed t u) : Grows Allowed s u := by
  obtain ⟨le, xs, hx, ax⟩ := h
  obtain ⟨le', ys, hy, ay⟩ := k
  refine ⟨Nat.le_trans le le', xs ++ ys, by rw [hy, hx, List.append_assoc], fun e mem => ?_⟩
  obtain inside | inside := List.mem_append.mp mem
  · obtain ⟨allowed, low, high⟩ := ax e inside
    exact ⟨allowed, low, Nat.le_trans high le'⟩
  · obtain ⟨allowed, low, high⟩ := ay e inside
    exact ⟨allowed, Nat.le_trans le low, high⟩

/-- What is in the record stays in it. -/
theorem Grows.mem {Allowed : Event → Prop} {s t : Dll σ} (h : Grows Allowed s t)
    {e : Nat × Event} (mem : e ∈ s.trace) : e ∈ t.trace := by
  obtain ⟨_, gained, ht, _⟩ := h
  rw [ht]
  exact List.mem_append_left gained mem

theorem Grows.of_noted {Allowed : Event → Prop} {s t : Dll σ} {events : List Event}
    (epoch : t.epoch = s.epoch) (trace : t.trace = s.trace ++ events.map (Prod.mk s.epoch))
    (h : ∀ e ∈ events, Allowed e) : Grows Allowed s t := by
  refine ⟨Nat.le_of_eq epoch.symm, events.map (Prod.mk s.epoch), trace, fun e mem => ?_⟩
  obtain ⟨event, inside, rfl⟩ := List.mem_map.mp mem
  exact ⟨h event inside, Nat.le_refl _, Nat.le_of_eq epoch.symm⟩

/-- Noting allowed events is growth, at the current epoch. -/
theorem Grows.of_note {Allowed : Event → Prop} (s : Dll σ) {events : List Event}
    (h : ∀ e ∈ events, Allowed e) : Grows Allowed s (s.note events) :=
  .of_noted rfl rfl h

theorem Grows.of_epoch (Allowed : Event → Prop) (s : Dll σ) :
    Grows Allowed s { s with epoch := s.epoch + 1 } :=
  ⟨Nat.le_succ _, [], (List.append_nil _).symm, by simp⟩

/-- A record that grew by some events has also grown by any wider kind of event. -/
theorem Grows.mono {Allowed Allowed' : Event → Prop} {s t : Dll σ} (h : Grows Allowed s t)
    (weaker : ∀ e, Allowed e → Allowed' e) : Grows Allowed' s t := by
  obtain ⟨le, gained, ht, allowed⟩ := h
  exact ⟨le, gained, ht, fun e mem => (allowed e mem).imp_left (weaker _)⟩

/-- The flags see neither the Lua state nor the arrays, so every function that only
works on these keeps them. -/
theorem SameFlags.outputFrame (Allowed : Event → Prop) :
    OutputFrame Allowed (SameFlags (σ := σ)) where
  refl := SameFlags.refl
  trans := fun _ _ _ => SameFlags.trans
  setL := fun _ _ => ⟨rfl, rfl, rfl, rfl, rfl, rfl, rfl⟩
  balanced := fun _ _ => ⟨rfl, rfl, rfl, rfl, rfl, rfl, rfl⟩
  note := fun _ _ _ => ⟨rfl, rfl, rfl, rfl, rfl, rfl, rfl⟩
  gERROR := fun _ _ => ⟨rfl, rfl, rfl, rfl, rfl, rfl, rfl⟩
  host := fun _ _ => ⟨rfl, rfl, rfl, rfl, rfl, rfl, rfl⟩

/-- The control state sees no more than the flags and the counts of the channels. -/
theorem SameControl.frame (Allowed : Event → Prop) :
    NameFrame Allowed (SameControl (σ := σ)) where
  refl := SameControl.refl
  trans := fun _ _ _ => SameControl.trans
  setL := fun s l => ⟨(SameFlags.outputFrame Allowed).setL s l, rfl, rfl⟩
  markers := fun _ _ _ => ⟨⟨rfl, rfl, rfl, rfl, rfl, rfl, rfl⟩, rfl, rfl⟩
  balanced := fun s b => ⟨(SameFlags.outputFrame Allowed).balanced s b, rfl, rfl⟩
  note := fun s events h => ⟨(SameFlags.outputFrame Allowed).note s events h, rfl, rfl⟩
  epoch := fun _ => ⟨⟨rfl, rfl, rfl, rfl, rfl, rfl, rfl⟩, rfl, rfl⟩

theorem Grows.frame (Allowed : Event → Prop) :
    NameFrame Allowed (Grows (σ := σ) Allowed) where
  refl := Grows.refl Allowed
  trans := fun _ _ _ => Grows.trans
  setL := fun _ _ => .of_same rfl rfl
  markers := fun _ _ _ => .of_same rfl rfl
  balanced := fun _ _ => .of_same rfl rfl
  epoch := fun s => Grows.of_epoch Allowed s
  note := fun s _ h => Grows.of_note s h

/-- Growth of the record is a frame for everything the DLL does with its Lua state
and the host's arrays. -/
theorem Grows.outputFrame (Allowed : Event → Prop) :
    OutputFrame Allowed (Grows (σ := σ) Allowed) where
  toFrame := (Grows.frame Allowed).toFrame
  gERROR := fun _ _ => .of_same rfl rfl
  host := fun _ _ => .of_same rfl rfl

/-- Two frames at once. -/
theorem NameFrame.and {Allowed : Event → Prop} {R S : Dll σ → Dll σ → Prop}
    (F : NameFrame Allowed R) (G : NameFrame Allowed S) :
    NameFrame Allowed (fun s t => R s t ∧ S s t) where
  refl := fun s => ⟨F.refl s, G.refl s⟩
  trans := fun s t u h k => ⟨F.trans s t u h.1 k.1, G.trans s t u h.2 k.2⟩
  setL := fun s l => ⟨F.setL s l, G.setL s l⟩
  markers := fun s ins outs => ⟨F.markers s ins outs, G.markers s ins outs⟩
  balanced := fun s b => ⟨F.balanced s b, G.balanced s b⟩
  epoch := fun s => ⟨F.epoch s, G.epoch s⟩
  note := fun s events h => ⟨F.note s events h, G.note s events h⟩

/-- What happens after a step in `R` is in `R` of where that step began. -/
theorem Frame.after {Allowed : Event → Prop} {R : Dll σ → Dll σ → Prop} (F : Frame Allowed R)
    {s t : Dll σ} {x : DllM σ α} {Q : α → Dll σ → Prop} {A : Stop → Dll σ → Prop} (first : R s t)
    (h : Ensures x t (fun a u => Q a u ∧ R t u) (fun e u => A e u ∧ R t u)) :
    Ensures x t (fun a u => Q a u ∧ R s u) (fun e u => A e u ∧ R s u) :=
  h.mono (fun _ _ ⟨q, second⟩ => ⟨q, F.trans _ _ _ first second⟩)
    (fun _ _ ⟨a, second⟩ => ⟨a, F.trans _ _ _ first second⟩)

/-! ### Programs within a frame -/

/-- Whether `L` is known to be open or closed. -/
inductive Mode where
  | opened
  | closed
  | either

def Mode.Holds : Mode → Option (LuaState σ) → Prop
  | .opened, L => L.isSome
  | .closed, L => L = none
  | .either, _ => True

/-- Why a part may stop: with the mode known, never at a NULL state. -/
def Mode.MayStop (mode : Mode) (e : Stop) : Prop := mode = .either ∨ e ≠ .nullState

/-- Started in the mode, `x` returns in it or stops, and stays in `R` either
way. -/
def Within (mode : Mode) (R : Dll σ → Dll σ → Prop) (x : DllM σ α) : Prop :=
  ∀ s, mode.Holds s.L →
    Ensures x s (fun _ t => mode.Holds t.L ∧ R s t) (fun e t => mode.MayStop e ∧ R s t)

section Rules

variable {mode : Mode} {Allowed : Event → Prop} {R : Dll σ → Dll σ → Prop}

theorem Mode.MayStop.of_ne {e : Stop} (ne : e ≠ .nullState) : mode.MayStop e := .inr ne

theorem Within.get (F : Frame Allowed R) : Within mode R (get : DllM σ (Dll σ)) :=
  fun s live => .get ⟨live, F.refl s⟩

theorem Within.pure (F : Frame Allowed R) (a : α) : Within mode R (pure a : DllM σ α) :=
  fun s live => .pure ⟨live, F.refl s⟩

theorem Within.throw (F : Frame Allowed R) {e : Stop} (ne : e ≠ .nullState) :
    Within mode R (throw e : DllM σ α) :=
  fun s _ => .throw ⟨.of_ne ne, F.refl s⟩

/-- An update that keeps `L` and stays in the relation. -/
theorem Within.modify {f : Dll σ → Dll σ} (same : ∀ s, (f s).L = s.L) (h : ∀ s, R s (f s)) :
    Within mode R (modify f : DllM σ PUnit) :=
  fun s live => .modify ⟨by rw [same]; exact live, h s⟩

/-- Two parts one after the other: the second may start wherever the first one ends,
since the mode is kept and the relation is transitive. -/
theorem Within.bind (F : Frame Allowed R) {x : DllM σ α} {f : α → DllM σ β} (hx : Within mode R x)
    (hf : ∀ a, Within mode R (f a)) : Within mode R (x >>= f) := by
  intro s live
  rw [ensures_bind]
  refine (hx s live).mono (fun a t ⟨live, first⟩ => ?_) (fun _ _ h => h)
  exact (hf a t live).mono (fun _ _ ⟨l, second⟩ => ⟨l, F.trans _ _ _ first second⟩)
    (fun _ _ ⟨e, second⟩ => ⟨e, F.trans _ _ _ first second⟩)

theorem Within.ite {c : Prop} [Decidable c] {x y : DllM σ α} (hx : Within mode R x)
    (hy : Within mode R y) : Within mode R (if c then x else y) := by
  split
  · exact hx
  · exact hy

/-- A loop stays in the frame if every round does, whatever the bounds. -/
theorem Within.countUp (F : Frame Allowed R) {lo hi : Nat} {body : Nat → DllM σ PUnit}
    (h : ∀ i, Within mode R (body i)) : Within mode R (Program.countUp lo hi body) := by
  intro s live
  by_cases le : lo ≤ hi
  · refine Ensures.countUp (fun _ t => mode.Holds t.L ∧ R s t) le ⟨live, F.refl s⟩ ?_
    intro i _ _ t ⟨live, before⟩
    exact (h i t live).mono (fun _ _ ⟨l, step⟩ => ⟨l, F.trans _ _ _ before step⟩)
      (fun _ _ ⟨e, step⟩ => ⟨e, F.trans _ _ _ before step⟩)
  · rw [countUp_done (by omega)]
    exact .pure ⟨live, F.refl s⟩

/-- An API call stops at a NULL state only where the mode leaves that open. -/
theorem Within.onL (F : Frame Allowed R) (may : mode ≠ .closed) (call : LuaM σ α) :
    Within mode R (ProfiLua.onL call) := by
  intro s live
  unfold Ensures ProfiLua.onL
  cases hl : s.L with
  | none =>
      cases mode with
      | opened => simp [Mode.Holds, hl] at live
      | closed => exact absurd rfl may
      | either => exact ⟨.inl rfl, F.refl s⟩
  | some l =>
      simp only
      cases call l with
      | ok a l' =>
          refine ⟨?_, F.setL s _⟩
          cases mode with
          | opened => rfl
          | closed => exact absurd rfl may
          | either => trivial
      | error e l' => exact ⟨.of_ne (by simp), F.setL s _⟩

/-- A part that needs `L` open, run where it is. -/
theorem Within.live {x : DllM σ α} (h : Within .opened R x) {s : Dll σ} (live : s.L.isSome) :
    Ensures x s (fun _ t => t.L.isSome ∧ R s t) (fun e t => mode.MayStop e ∧ R s t) :=
  (h s live).mono (fun _ _ h => h)
    fun _ _ ⟨stop, same⟩ => ⟨.of_ne (stop.resolve_left (by simp)), same⟩

/-- With the mode known, a part never meets a NULL state. -/
theorem Within.run {x : DllM σ α} (h : Within mode R x) (known : mode ≠ .either) {s : Dll σ}
    (holds : mode.Holds s.L) :
    Ensures x s (fun _ t => mode.Holds t.L ∧ R s t) (fun e _ => e ≠ .nullState) :=
  (h s holds).mono (fun _ _ h => h) fun _ _ ⟨stop, _⟩ => stop.resolve_left known

theorem Within.emit (F : Frame Allowed R) {events : Dll σ → List Event}
    (h : ∀ s, ∀ e ∈ events s, Allowed e) : Within mode R (ProfiLua.emit events) :=
  .modify (fun _ => rfl) fun s => F.note s _ (h s)

/-- Notes for the record are outside every frame. -/
theorem Within.check (F : Frame Allowed R) (ok : LuaState σ → Bool) :
    Within mode R (ProfiLua.check ok) :=
  .modify (fun _ => rfl) fun s => F.balanced s _

theorem Within.height (F : Frame Allowed R) : Within mode R (ProfiLua.height (σ := σ)) :=
  .bind F (.get F) fun _ => .pure F _

theorem Within.popAbove (F : Frame Allowed R) (may : mode ≠ .closed) (bar : Int) :
    Within mode R (ProfiLua.popAbove (σ := σ) bar) :=
  .bind F (.onL F may _) fun _ => .check F _

theorem Within.inMarked (F : Frame Allowed R) (i : Nat) :
    Within mode R (ProfiLua.inMarked (σ := σ) i) :=
  .ite (.bind F (.get F) fun _ => .pure F _) (.throw F (by simp))

theorem Within.outMarked (F : Frame Allowed R) (i : Nat) :
    Within mode R (ProfiLua.outMarked (σ := σ) i) :=
  .ite (.bind F (.get F) fun _ => .pure F _) (.throw F (by simp))

theorem Within.markInput (F : NameFrame Allowed R) (i : Nat) (mark : UChar) :
    Within mode R (ProfiLua.markInput (σ := σ) i mark) :=
  .ite (.modify (fun _ => rfl) fun s => F.markers s _ s.gOutStrMarker) (.throw F.toFrame (by simp))

theorem Within.markOutput (F : NameFrame Allowed R) (i : Nat) (mark : UChar) :
    Within mode R (ProfiLua.markOutput (σ := σ) i mark) :=
  .ite (.modify (fun _ => rfl) fun s => F.markers s s.gInStrMarker _) (.throw F.toFrame (by simp))

theorem Within.setError (F : WritingFrame Allowed R) (error : UChar) :
    Within mode R (ProfiLua.setError error) :=
  .modify (fun _ => rfl) fun s => F.gERROR s error

theorem Within.setPOutput (F : WritingFrame Allowed R) (i : Nat) (d : LuaNumber) :
    Within mode R (ProfiLua.setPOutput i d) :=
  .modify (fun _ => rfl) fun s => F.written s _ rfl

theorem Within.setPUser (F : WritingFrame Allowed R) (i : Nat) (d : LuaNumber) :
    Within mode R (ProfiLua.setPUser i d) :=
  .modify (fun _ => rfl) fun s => F.written s _ rfl

theorem Within.setPString (F : WritingFrame Allowed R) (i : Nat) (text : Bytes) :
    Within mode R (ProfiLua.setPString i text) :=
  .modify (fun _ => rfl) fun s => F.written s _ rfl

end Rules

/-! ### Opening, closing and queries -/

/-- What a query notes: it never calls the functions of the simulation. -/
def Event.OfQuery : Event → Prop
  | .luaOpen => True
  | .luaClose => True
  | .activation (.chunk .query) _ => True
  | .activation (.hook .gInputName) _ => True
  | .activation (.hook .gOutputName) _ => True
  | .dummy _ => True
  | _ => False

section Queries

variable (E : Env σ) {mode : Mode} {Allowed : Event → Prop} {R : Dll σ → Dll σ → Prop}

/-- The state that is opened, or the lack of memory for it: the answer says whether
`L` is there afterwards. -/
theorem openState_outcome (F : OpeningFrame Allowed R) (hA : ∀ e : Event, e.OfQuery → Allowed e)
    (s : Dll σ) :
    Ensures (openState E) s (fun opened t => t.L.isSome = opened ∧ R s t)
      (fun e t => mode.MayStop e ∧ R s t) := by
  unfold openState luaOpen
  rw [ensures_bind, ensures_get]
  refine .ite (fun live => .pure ⟨live, F.refl s⟩) fun closed => ?_
  rw [ensures_bind, ensures_modify, ensures_bind, ensures_get]
  cases E.luaOpen s.epoch with
  | none =>
      refine .ite (fun live => absurd live closed) fun _ => ?_
      exact .pure ⟨by simpa using closed, F.epoch s⟩
  | some heap =>
      refine .ite (fun _ => ?_) fun no => absurd rfl no
      refine Ensures.bind (.of_ok (onL_ok rfl (run_modify _ _)) ?_) fun _ _ h => .pure h
      refine ⟨rfl, F.trans _ _ _ (F.epoch s) (F.trans _ _ _ (F.setL _ (some ⟨[.nil], heap⟩)) ?_)⟩
      have noted := F.note { s with L := some ⟨[.nil], heap⟩, epoch := s.epoch + 1 } [.luaOpen]
      exact F.trans _ _ _ (noted (by simpa using hA .luaOpen trivial)) (F.setL _ _)

/-- The chunk runs protected, so it changes the Lua state and the record alone. -/
theorem runChunk_within (F : Frame Allowed R) (may : mode ≠ .closed) {purpose : Purpose}
    (hA : Allowed (.activation (.chunk purpose) none)) : Within mode R (runChunk E purpose) := by
  refine .bind F (.get F) fun _ => .bind F (.onL F may _) fun _ => .bind F (.emit F ?_) fun _ =>
    .onL F may _
  intro s e mem
  split at mem
  · cases List.mem_singleton.mp mem
    exact hA
  · simp at mem

/-- `OpenLuaScript` reports whether `L` is open afterwards. -/
theorem openLuaScript_outcome (F : OpeningFrame Allowed R) (hA : ∀ e : Event, e.OfQuery → Allowed e)
    (purpose : Purpose) (hP : Allowed (.activation (.chunk purpose) none)) (s : Dll σ) :
    Ensures (openLuaScript E purpose) s (fun opened t => t.L.isSome = opened ∧ R s t)
      (fun e t => mode.MayStop e ∧ R s t) := by
  refine (openState_outcome E F hA s).bind fun opened t ⟨live, first⟩ => ?_
  refine .ite (fun yes => ?_) fun no => .pure ⟨by rw [live]; simpa using no, first⟩
  have run : Within .opened R (runChunk E purpose) := runChunk_within E F.toFrame (by simp) hP
  exact (F.after first (run.live (live.trans yes))).bind fun _ _ h => .pure h

/-- Whether or not a script is open. -/
theorem openLuaScript_within (F : OpeningFrame Allowed R) (hA : ∀ e : Event, e.OfQuery → Allowed e)
    (purpose : Purpose) (hP : Allowed (.activation (.chunk purpose) none)) :
    Within .either R (openLuaScript E purpose) :=
  fun s _ => (openLuaScript_outcome E F hA purpose hP s).mono (fun _ _ ⟨_, h⟩ => ⟨trivial, h⟩)
    fun _ _ h => h

/-- `OpenLuaScript` never meets a NULL state. -/
theorem openLuaScript_run (F : OpeningFrame Allowed R) (hA : ∀ e : Event, e.OfQuery → Allowed e)
    (purpose : Purpose) (hP : Allowed (.activation (.chunk purpose) none)) (s : Dll σ) :
    Ensures (openLuaScript E purpose) s (fun opened t => t.L.isSome = opened ∧ R s t)
      (fun e _ => e ≠ .nullState) := by
  have outcome : Ensures (openLuaScript E purpose) s (fun opened t => t.L.isSome = opened ∧ R s t)
      (fun e t => Mode.opened.MayStop e ∧ R s t) := openLuaScript_outcome E F hA purpose hP s
  exact outcome.mono (fun _ _ h => h) fun _ _ ⟨stop, _⟩ => stop.resolve_left (by simp)

/-- `CloseLuaScript` always closes. -/
theorem closeLuaScript_outcome (F : OpeningFrame Allowed R) (hA : Allowed .luaClose) (s : Dll σ)
    {Q : Stop → Dll σ → Prop} : Ensures closeLuaScript s (fun _ t => t.L = none ∧ R s t) Q := by
  unfold closeLuaScript
  rw [ensures_modify]
  by_cases live : s.L.isSome
  · rw [if_pos live]
    refine ⟨rfl, F.trans _ _ _ (F.note s [.luaClose] (by simpa using hA)) ?_⟩
    exact F.trans _ _ _ (F.setL _ none) (F.epoch _)
  · rw [if_neg live]
    exact ⟨by simpa using live, F.refl s⟩

theorem markString_within (F : Frame Allowed R) {mark : DllM σ PUnit} (hm : Within mode R mark)
    (name : Bytes) : Within mode R (markString mark name) :=
  .ite hm (.pure F _)

theorem readName_within (F : Frame Allowed R) (may : mode ≠ .closed) {mark : DllM σ PUnit}
    (hm : Within mode R mark) : Within mode R (readName E mark) :=
  .bind F (.onL F may _) fun _ => .ite
    (.bind F (.onL F may _) fun _ => .bind F (markString_within F hm _) fun _ => .pure F _)
    (.pure F _)

theorem emitHook_within (F : Frame Allowed R) {hook : Hook}
    (hA : ∀ a, Allowed (.activation (.hook hook) a)) :
    Within mode R (emitHook (σ := σ) hook) := by
  refine .emit F fun s e mem => ?_
  split at mem
  all_goals
    cases List.mem_singleton.mp mem
    exact hA _

/-- Asking for a name uses the open state and the record, and what `mark` does. -/
theorem askName_within (F : Frame Allowed R) (may : mode ≠ .closed) {hook : Hook}
    (hA : ∀ a, Allowed (.activation (.hook hook) a)) {mark : DllM σ PUnit}
    (hm : Within mode R mark) (channel : UChar) : Within mode R (askName E hook mark channel) :=
  .bind F (.height F) fun _ => .bind F (.onL F may _) fun _ => .bind F (.onL F may _) fun _ =>
    .bind F (.onL F may _) fun _ => .ite
      (.bind F (.onL F may _) fun _ => .bind F (emitHook_within F hA) fun _ =>
        .bind F (.onL F may _) fun _ => .bind F (readName_within E F may hm) fun _ =>
          .bind F (.popAbove F may _) fun _ => .pure F _)
      (.pure F _)

/-- A closed script is in every mode that does not need it open. -/
theorem Mode.holds_none (ne : mode ≠ .opened) {L : Option (LuaState σ)} (none : L = none) :
    mode.Holds L := by
  cases mode with
  | opened => exact absurd rfl ne
  | closed => exact none
  | either => trivial

/-- A name query opens `L` and closes it, unless the channel is the reserved
one. -/
theorem nameQuery_within (F : OpeningFrame Allowed R) (hA : ∀ e : Event, e.OfQuery → Allowed e)
    (ne : mode ≠ .opened) (reserved : String) {hook : Hook}
    (hH : ∀ a, Allowed (.activation (.hook hook) a)) {mark : Nat → UChar → DllM σ PUnit}
    (hm : ∀ i c, Within .opened R (mark i c)) (channel : UChar) :
    Within mode R (nameQuery E reserved hook mark channel) := by
  refine .ite (.pure F.toFrame _) fun s _ => ?_
  refine (openLuaScript_outcome E F hA .query (hA _ trivial) s).bind
    fun opened t ⟨live, first⟩ => ?_
  refine .ite (fun yes => ?_) fun no =>
    .pure ⟨Mode.holds_none ne (by simpa [no] using live), first⟩
  have ask : Within .opened R (askName E hook (mark channel.toNat 1) channel) :=
    askName_within E F.toFrame (by simp) hH (hm channel.toNat 1) channel
  refine (F.after first (ask.live (live.trans yes))).bind fun name u ⟨_, second⟩ => ?_
  refine (closeLuaScript_outcome F (hA _ trivial) u).bind fun _ v ⟨gone, third⟩ => ?_
  exact .pure ⟨Mode.holds_none ne gone, F.trans _ _ _ second third⟩

theorem getInputName_within (F : NameFrame Allowed R) (hA : ∀ e : Event, e.OfQuery → Allowed e)
    (ne : mode ≠ .opened) (channel : UChar) : Within mode R (getInputName E channel) :=
  nameQuery_within E F.toOpeningFrame hA ne _
    (fun a => hA (.activation (.hook .gInputName) a) trivial)
    (fun i c => .markInput F i c) channel

theorem getOutputName_within (F : NameFrame Allowed R) (hA : ∀ e : Event, e.OfQuery → Allowed e)
    (ne : mode ≠ .opened) (channel : UChar) : Within mode R (getOutputName E channel) :=
  nameQuery_within E F.toOpeningFrame hA ne _
    (fun a => hA (.activation (.hook .gOutputName) a) trivial)
    (fun i c => .markOutput F i c) channel

/-- All names are asked one after the other, each in a Lua state of its own, so the
start may begin with the script closed. -/
theorem queryMarkers_within (F : NameFrame Allowed R) (hA : ∀ e : Event, e.OfQuery → Allowed e)
    (ne : mode ≠ .opened) : Within mode R (queryMarkers E) := by
  have F' := F.toFrame
  have note : ∀ name : Bytes,
      Within mode R (emit (σ := σ) fun _ => [.dummy (name.length + 1)]) := fun name =>
    .emit F' fun _ e mem => by
      cases List.mem_singleton.mp mem
      exact hA _ trivial
  refine .bind F' (.countUp F' fun i => .bind F' (.markInput F i 0) fun _ => .markOutput F i 0) ?_
  intro _
  refine .bind F' (.get F') fun _ => .bind F' (.countUp F' fun i => ?_) fun _ =>
    .bind F' (.get F') fun _ => .countUp F' fun i => ?_
  · exact .bind F' (getInputName_within E F hA ne _) note
  · exact .bind F' (getOutputName_within E F hA ne _) note

end Queries

/-! ### Parts that talk to the script -/

/-- What taking an answer of the script notes. -/
def Event.OfReply : Event → Prop
  | .reply .. => True
  | _ => False

/-- What calling a script function and taking its answer notes. -/
def Event.OfScript : Event → Prop
  | .activation (.hook _) _ => True
  | e => e.OfReply

/-- A reply is an event of the script. -/
theorem Event.OfReply.ofScript {e : Event} (h : e.OfReply) : e.OfScript := by
  cases e with
  | reply => trivial
  | _ => exact h.elim

section Parts

variable (E : Env σ) {mode : Mode} {Allowed : Event → Prop} {R : Dll σ → Dll σ → Prop}

theorem pushInput_within (F : Frame Allowed R) (may : mode ≠ .closed) {marked : Nat → DllM σ PUnit}
    (hm : ∀ i, Within mode R (marked i)) (i : Nat) : Within mode R (pushInput marked i) :=
  .bind F (.inMarked F i) fun _ => .ite (hm i)
    (.bind F (.get F) fun _ => .onL F may _)

theorem pushInputs_within (F : Frame Allowed R) (may : mode ≠ .closed) {marked : Nat → DllM σ PUnit}
    (hm : ∀ i, Within mode R (marked i)) : Within mode R (pushInputs E marked) :=
  .bind F (.get F) fun _ => .bind F (.onL F may _) fun _ => .countUp F fun i =>
    .bind F (.onL F may _) fun _ => .bind F (pushInput_within F may hm i) fun _ =>
      .onL F may _

/-- Looking a function up, building its argument and calling it: the counts are
read, never written. -/
theorem callHook_within (F : Frame Allowed R) (hA : ∀ e : Event, e.OfScript → Allowed e)
    (may : mode ≠ .closed) (hook : Hook)
    {marked : Nat → DllM σ PUnit} (hm : ∀ i, Within mode R (marked i)) (nresults : Nat) :
    Within mode R (callHook E hook marked nresults) :=
  .bind F (.onL F may _) fun _ => .bind F (.onL F may _) fun _ => .bind F (.onL F may _)
    fun _ => .ite
      (.bind F (pushInputs_within E F may hm) fun _ =>
        .bind F (emitHook_within F fun _ => hA _ trivial) fun _ =>
          .bind F (.onL F may _) fun _ => .pure F _)
      (.bind F (.emit F fun _ _ mem => by
        cases List.mem_singleton.mp mem
        exact hA _ trivial) fun _ => .pure F _)

theorem stringDummy_within (F : Frame Allowed R) (may : mode ≠ .closed) (i : Nat) :
    Within mode R (stringDummy (σ := σ) i) :=
  .onL F may _

theorem pushPString_within (F : Frame Allowed R) (may : mode ≠ .closed) (i : Nat) :
    Within mode R (pushPString (σ := σ) i) :=
  .bind F (.get F) fun _ => .onL F may _

theorem storePUser_within (F : Frame Allowed R) (may : mode ≠ .closed) :
    Within mode R (storePUser E) :=
  .bind F (.onL F may _) fun _ => .bind F
    (.countUp F fun _ => .bind F (.onL F may _) fun _ => .bind F (.get F) fun _ =>
      .bind F (.onL F may _) fun _ => .onL F may _) fun _ => .onL F may _

theorem emitReply_within (F : Frame Allowed R) (hA : ∀ e : Event, e.OfReply → Allowed e)
    (source : Source) : Within mode R (emitReply (σ := σ) source) := by
  refine .emit F fun s e mem => ?_
  split at mem
  · cases List.mem_singleton.mp mem
    exact hA _ trivial
  · simp at mem

theorem fetchElement_within (F : Frame Allowed R) (may : mode ≠ .closed) (tbl : TValue) (i : Nat) :
    Within mode R (fetchElement E tbl i) :=
  .bind F (.onL F may _) fun _ => .bind F (.check F _) fun _ => .onL F may _

theorem storeNumber_within (F : WritingFrame Allowed R) (may : mode ≠ .closed) (bar : Int)
    {cell : LuaNumber → DllM σ PUnit} {bad : DllM σ PUnit} (hc : ∀ d, Within mode R (cell d))
    (hb : Within mode R bad) : Within mode R (storeNumber E bar cell bad) :=
  have F' := F.toFrame
  .bind F' (.onL F' may _) fun _ => .ite (.bind F' (.onL F' may _) fun d => hc d)
    (.bind F' (hc _) fun _ => .bind F' (.popAbove F' may _) fun _ => hb)

theorem storeString_within (F : WritingFrame Allowed R) (may : mode ≠ .closed) (bar : Int)
    (i : Nat) :
    Within mode R (storeString E bar i) :=
  have F' := F.toFrame
  .bind F' (.onL F' may _) fun _ => .ite (.bind F' (.onL F' may _) fun _ => .setPString F i _)
    (.bind F' (.setPString F i _) fun _ => .bind F' (.popAbove F' may bar) fun _ => .setError F 1)

theorem storeOutput_within (F : WritingFrame Allowed R) (may : mode ≠ .closed) (bar : Int)
    {marked : Nat → DllM σ PUnit} (hm : ∀ i, Within mode R (marked i)) (i : Nat) :
    Within mode R (storeOutput E bar marked i) :=
  .bind F.toFrame (.outMarked F.toFrame i) fun _ => .ite (hm i)
    (storeNumber_within E F may bar (.setPOutput F i) (.setError F 1))

theorem readOutput_within (F : WritingFrame Allowed R) (may : mode ≠ .closed) (bar : Int)
    (tbl : TValue)
    (i : Nat) : Within mode R (readOutput E bar tbl i) :=
  have F' := F.toFrame
  .bind F' (fetchElement_within E F' may tbl i) fun _ => .bind F'
    (storeOutput_within E F may bar (storeString_within E F may bar) i) fun _ =>
      .popAbove F' may bar

theorem readStartOutput_within (F : WritingFrame Allowed R) (may : mode ≠ .closed) (bar : Int)
    (tbl : TValue) (i : Nat) : Within mode R (readStartOutput E bar tbl i) :=
  have F' := F.toFrame
  .bind F' (fetchElement_within E F' may tbl i) fun _ => .bind F'
    (storeOutput_within E F may bar (fun _ => .pure F' _) i) fun _ => .popAbove F' may bar

theorem readPUser_within (F : WritingFrame Allowed R) (may : mode ≠ .closed) (bar : Int)
    (tbl : TValue)
    (i : Nat) : Within mode R (readPUser E bar tbl i) :=
  have F' := F.toFrame
  .bind F' (fetchElement_within E F' may tbl (i + 1)) fun _ => .bind F'
    (storeNumber_within E F may bar (.setPUser F i) (.pure F' _)) fun _ => .popAbove F' may bar

/-- Reading a table back stays in the frame if a round does, however many rounds
there are. -/
theorem takeTable_within (F : WritingFrame Allowed R) (may : mode ≠ .closed) (bar : Int) (lo : Nat)
    (hi : Dll σ → Nat) {round : TValue → Nat → DllM σ PUnit} {other : DllM σ PUnit}
    (hr : ∀ tbl i, Within mode R (round tbl i)) (ho : Within mode R other) :
    Within mode R (takeTable bar lo hi round other) :=
  have F' := F.toFrame
  .bind F' (.onL F' may _) fun _ => .ite
    (.bind F' (.onL F' may _) fun tbl => .bind F' (.get F') fun _ => .bind F'
      (.countUp F' fun i => hr tbl i) fun _ => .popAbove F' may bar)
    ho

theorem readStartResult_within (F : WritingFrame Allowed R)
    (hA : ∀ e : Event, e.OfReply → Allowed e) (may : mode ≠ .closed) (bar : Int) :
    Within mode R (readStartResult E bar) :=
  .bind F.toFrame (emitReply_within F.toFrame hA _) fun _ =>
    takeTable_within F may bar _ _ (readStartOutput_within E F may bar) (.setError F 1)

theorem readResult_within (F : WritingFrame Allowed R)
    (hA : ∀ e : Event, e.OfReply → Allowed e) (may : mode ≠ .closed) (bar : Int) :
    Within mode R (readResult E bar) :=
  .bind F.toFrame (emitReply_within F.toFrame hA _) fun _ =>
    takeTable_within F may bar _ _ (readOutput_within E F may bar) (.setError F 1)

theorem startScript_within (F : WritingFrame Allowed R)
    (hA : ∀ e : Event, e.OfScript → Allowed e) (may : mode ≠ .closed) (bar : Int) :
    Within mode R (startScript E bar) :=
  have F' := F.toFrame
  .bind F' (callHook_within E F.toFrame hA may _ (stringDummy_within F.toFrame may) 1) fun _ => .ite
    (.bind F' (readStartResult_within E F (fun e h => hA e h.ofScript) may bar) fun _ =>
      .bind F' (.setPOutput F 0 _) fun _ =>
      .setError F 0)
    (.pure F' _)

theorem startSession_within (F : WritingFrame Allowed R)
    (hA : ∀ e : Event, e.OfScript → Allowed e) (may : mode ≠ .closed) :
    Within mode R (startSession E) :=
  have F' := F.toFrame
  .bind F' (.height F') fun bar => .bind F' (storePUser_within E F' may) fun _ =>
    .bind F' (startScript_within E F hA may bar) fun _ => .check F' _

/-- The end of a start, once the names are asked. -/
theorem openingSession_within (F : OpeningFrame Allowed R) (W : WritingFrame Allowed R)
    (hQ : ∀ e : Event, e.OfQuery → Allowed e) (hA : ∀ e : Event, e.OfScript → Allowed e)
    (hP : Allowed (.activation (.chunk .session) none)) :
    Within .either R (openLuaScript E .session >>= fun opened =>
      if opened then startSession E else pure ()) :=
  .bind F.toFrame (openLuaScript_within E F hQ .session hP) fun _ =>
    .ite (startSession_within E W hA (by simp)) (.pure F.toFrame _)

theorem exchange_within (F : WritingFrame Allowed R)
    (hA : ∀ e : Event, e.OfScript → Allowed e) (may : mode ≠ .closed) (bar : Int) :
    Within mode R (exchange E bar) :=
  have F' := F.toFrame
  .bind F' (callHook_within E F' hA may _ (pushPString_within F' may) 1) fun _ =>
    .ite (readResult_within E F (fun e h => hA e h.ofScript) may bar) (.setError F 1)

/-- The data exchange writes outputs and texts and may raise the error flag. -/
theorem calculate_within (F : WritingFrame Allowed R)
    (hA : ∀ e : Event, e.OfScript → Allowed e) (may : mode ≠ .closed) :
    Within mode R (calculate E) :=
  have F' := F.toFrame
  .bind F' (.height F') fun bar => .bind F' (exchange_within E F hA may bar) fun _ => .check F' _

theorem restorePUser_within (F : WritingFrame Allowed R)
    (hA : ∀ e : Event, e.OfReply → Allowed e) (may : mode ≠ .closed) :
    Within mode R (restorePUser E) :=
  have F' := F.toFrame
  .bind F' (.height F') fun bar => .bind F' (.onL F' may _) fun _ => .bind F' (.onL F' may _)
    fun _ => .bind F' (emitReply_within F.toFrame hA _) fun _ =>
      takeTable_within F may bar _ _ (readPUser_within E F may bar) (.pure F' _)

theorem callStop_within (F : WritingFrame Allowed R)
    (hA : ∀ e : Event, e.OfScript → Allowed e) (may : mode ≠ .closed) :
    Within mode R (callStop E) :=
  have F' := F.toFrame
  .bind F' (callHook_within E F' hA may _ (stringDummy_within F' may) 0) fun _ =>
    .ite (.pure F.toFrame _) (.setError F 1)

/-- Without an error `gSimStop` is called and `gPUser` read back; with one, nothing
happens. -/
theorem stopScript_within (F : WritingFrame Allowed R)
    (hA : ∀ e : Event, e.OfScript → Allowed e) (may : mode ≠ .closed) :
    Within mode R (stopScript E) :=
  .bind F.toFrame (.get F.toFrame) fun _ => .ite
    (.bind F.toFrame (callStop_within E F hA may) fun _ =>
      restorePUser_within E F (fun e h => hA e h.ofScript) may)
    (.pure F.toFrame _)

end Parts

end ProfiLua

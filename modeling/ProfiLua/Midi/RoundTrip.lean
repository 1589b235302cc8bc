import ProfiLua.Midi.Queue

/-!
From `SendMessage` over the wire to `GetMessage`.

`plPlayNote` packs type, channel, key and velocity into a word; `MidiReceive`
unpacks it, compares the status byte with the message types and queues it;
`plGetEvent` takes the type and the channel apart again. The comparison is made
with the whole status byte, the channel included, so a message comes back
exactly when it was sent on the first channel (`echoed_iff`).
-/

namespace ProfiLua

open Program

variable {σ : Type}

/-- An integer argument. -/
def luaInt (n : Nat) : TValue := .number (.ofNat n)

/-- The arguments of `SendMessage(out, channel, key, velocity, type)`. -/
def sendArgs (out : UInt32) (c key vel : Nat) (t : UChar) : List TValue :=
  [luaInt out.toNat, luaInt c, luaInt key, luaInt vel, luaInt t.toNat]

/-- `GetMessage(n)`. -/
def getMessage (n : UInt32) (heap : Heap σ) (o : MidiOutcomes) : MidiRequest σ :=
  .call .getMessage [luaInt n.toNat] heap o

/-- Delivering `word` to instance `n` appends one event to the queue of `n`, and
when the older ones have been fetched, `GetMessage(n)` returns this table. -/
def Echoed (E : LibEnv σ) (n : UInt32) (word : UInt32) (heap : Heap σ) (o : MidiOutcomes)
    (m : Midi) (table : Table) : Prop :=
  ∃ m1 V V1 d d1 ev, MidiRequest.perform E (.receive true n word) m = .ok .received m1 ∧
    Shows m V ∧ Shows m1 V1 ∧ V.input n = some d ∧ V1.input n = some d1 ∧
    d1.events = ev :: d.events ∧
    ∃ replies m2 a heap' m3,
      runAll (MidiRequest.perform E) (List.replicate d.events.length (getMessage n heap o)) m1 =
        .ok replies m2 ∧
      MidiRequest.perform E (getMessage n heap o) m2 = .ok (.returned [.table a] heap') m3 ∧
      heap'.table a = table

/-! ### Packing -/

/-- An `int` of the script arrives as that `int`. -/
theorem luaInt_int (E : LibEnv σ) {n : Nat} (small : n < 2 ^ 31) :
    (luaInt n).int E = Int32.ofInt n := by
  have cast : LuaNumber.ofNat n = .fin ((n : Int) : Rat) := by simp [LuaNumber.ofNat]
  simp only [luaInt, TValue.int, TValue.tonumber_number]
  rw [cast, luaNumber2integer_int E.casts (by omega) (by omega)]

/-- The data bytes of a message are its 7-bit arguments. -/
theorem data_byte {key : Nat} (small : key < 128) :
    (Int32.ofInt key).toUInt32.toUInt8 &&& 0x7f = key.toUInt8 := by
  have all : ∀ k : Fin 128,
      (Int32.ofInt (k.val : Int)).toUInt32.toUInt8 &&& 0x7f = k.val.toUInt8 := by decide +kernel
  exact all ⟨key, small⟩

/-- The status byte of a message on channel `c`. -/
def statusOf (t : UChar) (c : Nat) : UChar :=
  (Int32.ofInt t.toNat &&& 0xf0).toUInt32.toUInt8 ||| (Int32.ofInt c - 1).toUInt32.toUInt8

/-- The callback knows the status bytes of the first channel only: it compares
whole bytes with the four codes, whose low nibble is 0. -/
theorem handled_statusOf {t : UChar} (type : t ∈ [noteOff, noteOn, ctrl, pitch]) {c : Nat}
    (low : 1 ≤ c) (high : c ≤ 16) : handled (statusOf t c) = true ↔ c = 1 := by
  have all : ∀ t ∈ [noteOff, noteOn, ctrl, pitch], ∀ c : Fin 17, 1 ≤ c.val →
      (handled (statusOf t c.val) = true ↔ c.val = 1) := by decide +kernel
  exact all t type ⟨c, by omega⟩ low

/-- Its nibbles are the type and the channel. -/
theorem statusOf_nibbles {t : UChar} (type : t ∈ [noteOff, noteOn, ctrl, pitch]) {c : Nat}
    (low : 1 ≤ c) (high : c ≤ 16) :
    (statusOf t c &&& 0xf0).toNat = t.toNat ∧ (statusOf t c &&& 0x0f).toNat + 1 = c := by
  have all : ∀ t ∈ [noteOff, noteOn, ctrl, pitch], ∀ c : Fin 17, 1 ≤ c.val →
      (statusOf t c.val &&& 0xf0).toNat = t.toNat ∧
        (statusOf t c.val &&& 0x0f).toNat + 1 = c.val := by decide +kernel
  exact all t type ⟨c, by omega⟩ low

/-! ### Fetching -/

section Fetching

variable {E : LibEnv σ} {m : Midi} {V : View} {n : UInt32} {d : Input}

/-- `GetMessage(n)` on a device that holds events: it returns the table of the
oldest one, which is the last of the queue, and leaves the rest. -/
theorem perform_getMessage (shows : Shows m V) (found : V.input n = some d)
    {front : List (Nat × MidiInEvent)} {p : Nat} {ev : MidiInEvent}
    (queue : d.queue = front ++ [(p, ev)]) (heap : Heap σ) (o : MidiOutcomes) :
    ∃ a heap' m' V' d', (getMessage n heap o).perform E m = .ok (.returned [.table a] heap') m' ∧
      heap'.table a = eventTable ev ∧ Shows m' V' ∧ V'.input n = some d' ∧ d'.queue = front := by
  have reads : (luaInt n.toNat).queried E = n := (device_ofNat E n).2
  obtain ⟨reply, m', V', run, performed, shows'⟩ := perform_outcome E shows (getMessage n heap o)
  cases performed with
  | raised arg bad =>
      rw [List.mem_singleton.mp (List.mem_of_getElem? arg)] at bad
      cases bad
  | returned done =>
      cases done with
      | miscounted count => exact absurd rfl count
      | asked asks => cases asks
      | nothing _ fetches =>
          cases fetches with
          | absent absent =>
              rw [reads, found] at absent
              cases absent
          | nothing found' empty =>
              rw [reads, found] at found'
              cases found'
              simp [queue] at empty
      | message _ fetches =>
          cases fetches with
          | @fetched before after d1 front1 p1 ev1 at_ queue1 =>
              have found1 := at_.found
              rw [reads, found] at found1
              cases found1
              rw [queue] at queue1
              obtain ⟨rfl, same⟩ := List.append_inj' queue1 rfl
              cases same
              refine ⟨_, _, m', _, d.cut front, run, by simp, shows', ?_, rfl⟩
              rw [← reads]
              exact InputAt.found ⟨rfl, at_.number, at_.first⟩

/-- `GetMessage(n)` called `k` times takes the `k` oldest events. By induction
on `k`: the first call shortens the queue by its last element, and the rest is
the same for a shorter queue. -/
theorem run_fetches (heap : Heap σ) (o : MidiOutcomes) {k : Nat} (shows : Shows m V)
    (found : V.input n = some d) (enough : k ≤ d.queue.length) :
    ∃ replies m' V' d', runAll (MidiRequest.perform E) (List.replicate k (getMessage n heap o)) m =
        .ok replies m' ∧
      Shows m' V' ∧ V'.input n = some d' ∧ d'.queue = d.queue.take (d.queue.length - k) := by
  induction k generalizing m V d with
  | zero => exact ⟨[], m, V, d, rfl, shows, found, by simp⟩
  | succ k ih =>
      obtain empty | ⟨front, ⟨p, ev⟩, queue⟩ := List.eq_nil_or_concat' d.queue
      · simp [empty] at enough
      · obtain ⟨a, heap', m1, V1, d1, first, _, shows1, found1, rest⟩ :=
          perform_getMessage (E := E) shows found queue heap o
        have fewer : k ≤ d1.queue.length := by
          simp only [queue, List.length_append, List.length_singleton] at enough
          rw [rest]
          omega
        obtain ⟨replies, m2, V2, d2, later, shows2, found2, last⟩ := ih shows1 found1 fewer
        refine ⟨_, m2, V2, d2, runAll_cons_ok.mpr ⟨_, m1, replies, first, later, rfl⟩, shows2,
          found2, ?_⟩
        rw [last, rest, queue]
        have left : (front ++ [(p, ev)]).length - (k + 1) = front.length - k := by simp
        rw [left, List.take_append_of_le_length (Nat.sub_le _ _)]

end Fetching

/-! ### The round trip -/

/-- The word a successful `SendMessage` passes on has the status byte and the
two data bytes it was given, each of seven bits. The inputs stay as they are. -/
theorem sent_word {E : LibEnv σ} {m m1 : Midi} {V : View} (shows : Shows m V) {out : UInt32}
    {c key vel : Nat} {t : UChar} {heap heap1 : Heap σ} {o : MidiOutcomes} (small : c < 2 ^ 31)
    (key7 : key < 128) (vel7 : vel < 128)
    (sent : MidiRequest.perform E (.call .sendMessage (sendArgs out c key vel t) heap o) m =
      .ok (.returned [.number (.fin 0)] heap1) m1)
    {handle : Handle} {word : UInt32}
    (passed : m1.driver.sent = m.driver.sent ++ [(handle, word)]) :
    word = wordOf (statusOf t c) key.toUInt8 vel.toUInt8 0 ∧
      ∃ V1, Shows m1 V1 ∧ V1.ins = V.ins := by
  obtain ⟨reply, m', V', run, performed, shows'⟩ := perform_outcome E shows
    (.call .sendMessage (sendArgs out c key vel t) heap o)
  have same := sent.symm.trans run
  cases performed with
  | raised => cases same
  | yielded count => exact absurd rfl count
  | returned done =>
      cases done with
      | miscounted count => exact absurd rfl count
      | asked asks => cases asks
      | sendMessage number sends =>
          simp only [EStateM.Result.ok.injEq, MidiReply.returned.injEq, List.cons.injEq,
            TValue.number.injEq, LuaNumber.fin.injEq, and_true] at same
          obtain ⟨⟨code, _⟩, rfl⟩ := same
          rw [shows'.driver, shows.driver] at passed
          cases sends with
          | absent => simp at code
          | noChannel => simp at code
          | noHandle => simp at passed
          | sent found channels handle' =>
              have last := List.append_cancel_left passed
              simp only [List.cons.injEq, Prod.mk.injEq, and_true] at last
              have status : t.toNat < 2 ^ 31 := by
                have := t.toNat_lt
                omega
              refine ⟨?_, _, shows', rfl⟩
              rw [← last.2, luaInt_int E status, luaInt_int E small, luaInt_int E (by omega),
                luaInt_int E (by omega), data_byte key7, data_byte vel7]
              rfl

section Delivery

variable {E : LibEnv σ} {m : Midi} {V : View} {n word : UInt32} {t : UChar} {c key vel : Nat}

/-- A message of another channel than the first is not queued. The callback
compares the whole status byte, so the queue of the device is as long as it was.
-/
theorem not_echoed (shows : Shows m V) (type : t ∈ [noteOff, noteOn, ctrl, pitch]) (low : 1 ≤ c)
    (high : c ≤ 16) (other : c ≠ 1)
    (packed : word = wordOf (statusOf t c) key.toUInt8 vel.toUInt8 0) (heap : Heap σ)
    (o : MidiOutcomes) (table : Table) : ¬Echoed E n word heap o m table := by
  rintro ⟨m2', V1', V2', d1, d2, ev, run', shows1', shows2', found1, found2, grown, _⟩
  have ignored : handled (byteOf word 0) = false := by
    have known := handled_statusOf type low high
    rw [← (byteOf_wordOf (statusOf t c) key.toUInt8 vel.toUInt8 0).1, ← packed] at known
    simpa using mt known.mp other
  obtain ⟨reply, m2, V2, run, performed, shows2⟩ := perform_outcome E shows (.receive true n word)
  cases run'.symm.trans run
  have same : V2.ins = V.ins := by
    cases performed with
    | received receives =>
        cases receives with
        | ignored => rfl
        | noMemory memory => cases memory
        | queued accepted => simp [accepted] at ignored
        | lost accepted => simp [accepted] at ignored
  unfold View.input at found1 found2
  rw [shows2'.ins_unique shows2, same, shows.ins_unique shows1', found1] at found2
  cases found2
  simpa using congrArg List.length grown

/-- A message of the first channel is queued, and fetched after the older ones,
as the table of what was sent. -/
theorem echoed_first (shows : Shows m V) {d : Input} (found : V.input n = some d)
    (type : t ∈ [noteOff, noteOn, ctrl, pitch]) (key7 : key < 128) (vel7 : vel < 128)
    (packed : word = wordOf (statusOf t 1) key.toUInt8 vel.toUInt8 0) (heap : Heap σ)
    (o : MidiOutcomes) : Echoed E n word heap o m (messageTable t.toNat 1 key vel) := by
  obtain ⟨b0, b1, b2⟩ := byteOf_wordOf (statusOf t 1) key.toUInt8 vel.toUInt8 0
  rw [← packed] at b0 b1 b2
  have accepted : handled (byteOf word 0) = true := by
    rw [b0]
    exact (handled_statusOf type (Nat.le_refl 1) (by decide)).mpr rfl
  have back : eventTable (eventOf word) = messageTable t.toNat 1 key vel := by
    obtain ⟨kind, channel⟩ := statusOf_nibbles type (Nat.le_refl 1) (by decide)
    have small : ∀ k < 128, k.toUInt8.toNat = k := fun k lt => by
      rw [Nat.toUInt8_eq, UInt8.toNat_ofNat_of_lt' (by simp only [UInt8.size]; omega)]
    simp only [eventTable, eventOf, b0, b1, b2]
    rw [kind, channel, small key key7, small vel vel7]
  obtain ⟨reply, m2, V2, run, performed, shows2⟩ := perform_outcome E shows (.receive true n word)
  cases performed with
  | received receives =>
      cases receives with
      | ignored other => simp [accepted] at other
      | noMemory memory => cases memory
      | lost _ _ absent =>
          rw [found] at absent
          cases absent
      | @queued before after d0 a _ _ at_ =>
          have same := at_.found
          rw [found] at same
          cases same
          have found2 := InputAt.found (V := { V with
            ins := before ++ d.received a (eventOf word) :: after }) ⟨rfl, at_.number, at_.first⟩
          have length : d.events.length = d.queue.length := by simp [Input.events]
          obtain ⟨replies2, m3, V3, d3, fetched, shows3, found3, last⟩ :=
            run_fetches (E := E) heap o (k := d.events.length) shows2 found2
              (by simp [length, Input.received])
          have only : d3.queue = [] ++ [(a, eventOf word)] := by
            rw [last]
            simp [Input.received, length]
          obtain ⟨b, heap', m4, V4, d4, final, table, _⟩ :=
            perform_getMessage (E := E) shows3 found3 only heap o
          exact ⟨m2, V, _, d, _, eventOf word, run, shows, shows2, found, found2, rfl,
            replies2, m3, b, heap', m4, fetched, final, table.trans back⟩

end Delivery

/-- A message that was sent comes back exactly when its channel is the first. In
every state that a run of the library reaches, with the device open as input,
the word that `SendMessage` passed on is delivered, the older events are
fetched, and then the message itself. -/
theorem echoed_iff (E : LibEnv σ) {requests : List (MidiRequest σ)} {replies : List (MidiReply σ)}
    {m m1 m' : Midi} (reached : runAll (MidiRequest.perform E) requests Midi.init = .ok replies m)
    {out n : UInt32} {c key vel : Nat} {t : UChar} {heap heap1 : Heap σ} {o : MidiOutcomes}
    {device : Nat} (isOpen : getMidiInEntry n m = .ok (some device) m')
    (low : 1 ≤ c) (high : c ≤ 16) (type : t ∈ [noteOff, noteOn, ctrl, pitch])
    (key7 : key < 128) (vel7 : vel < 128)
    (sent : MidiRequest.perform E (.call .sendMessage (sendArgs out c key vel t) heap o) m =
      .ok (.returned [.number (.fin 0)] heap1) m1)
    {handle : Handle} {word : UInt32}
    (passed : m1.driver.sent = m.driver.sent ++ [(handle, word)]) :
    Echoed E n word heap o m1 (messageTable t.toNat c key vel) ↔ c = 1 := by
  obtain ⟨V, shows⟩ := (run_shows E requests).ok reached
  obtain ⟨packed, V1, shows1, ins⟩ := sent_word shows (by omega) key7 vel7 sent passed
  constructor
  · intro echoed
    by_contra other
    exact not_echoed shows1 type low high other packed heap o _ echoed
  · rintro rfl
    have look := run_getMidiInEntry shows n
    rw [isOpen] at look
    obtain ⟨d, found⟩ : ∃ d, V1.input n = some d := by
      unfold View.input
      rw [ins]
      cases found : V.input n with
      | none => simp [found] at look
      | some d => exact ⟨d, found⟩
    exact echoed_first shows1 found type key7 vel7 packed heap o

/-- An output and an input, both under number 0. -/
def openPair : List (MidiRequest Unit) :=
  [.call .openMidiOut [luaInt 0] quietHeap (smoothly 1),
    .call .openMidiIn [luaInt 0] quietHeap (smoothly 2)]

/-- A note on the given channel, after `openPair`. -/
def playNote (c : Nat) : MidiRequest Unit :=
  .call .sendMessage (sendArgs 0 c 60 100 noteOn) quietHeap (smoothly 0)

/-- `playNote c` succeeds and passes on `word`. -/
def Plays (c : Nat) (word : UInt32) (m : Midi) : Prop :=
  Ensures (MidiRequest.perform quietEnv (playNote c)) m
    (fun reply m1 => reply.values = some [.number (.fin 0)] ∧ m1.driver.sent = [(1, word)])
    fun _ _ => False

instance (c : Nat) (word : UInt32) : DecidablePred (Plays c word) := fun m =>
  inferInstanceAs (Decidable (Ensures (MidiRequest.perform quietEnv (playNote c)) m _ _))

theorem played (c : Nat) (word : UInt32)
    (sample : Ensures (runAll (MidiRequest.perform quietEnv) openPair) Midi.init
      (fun _ m => m.driver.sent = [] ∧ Plays c word m ∧
        Ensures (getMidiInEntry 0) m (fun dev _ => dev = some 0) (fun _ _ => False))
      fun _ _ => False) :
    ∃ replies m m' heap m1, runAll (MidiRequest.perform quietEnv) openPair Midi.init =
        .ok replies m ∧
      getMidiInEntry 0 m = .ok (some 0) m' ∧
      MidiRequest.perform quietEnv (playNote c) m = .ok (.returned [.number (.fin 0)] heap) m1 ∧
      m1.driver.sent = m.driver.sent ++ [(1, word)] := by
  obtain ⟨replies, m, run, silent, play, look⟩ := sample.returns
  obtain ⟨_, m', found, rfl⟩ := look.returns
  obtain ⟨reply, m1, playing, values, sent⟩ := play.returns
  obtain ⟨heap, rfl⟩ := MidiReply.returned_of_values values
  exact ⟨replies, m, m', heap, m1, run, found, playing, by rw [sent, silent]; rfl⟩

/-- On the second channel the note does not come back. -/
theorem secondChannel_lost : ∃ replies m m' heap m1,
    runAll (MidiRequest.perform quietEnv) openPair Midi.init = .ok replies m ∧
      getMidiInEntry 0 m = .ok (some 0) m' ∧
      MidiRequest.perform quietEnv (playNote 2) m = .ok (.returned [.number (.fin 0)] heap) m1 ∧
      m1.driver.sent = m.driver.sent ++ [(1, 0x00643C91)] ∧
      ¬Echoed quietEnv 0 0x00643C91 quietHeap (smoothly 0) m1 (messageTable 0x90 2 60 100) := by
  obtain ⟨replies, m, m', heap, m1, run, found, play, sent⟩ := played 2
    0x00643C91 (by decide +kernel)
  obtain ⟨V, shows⟩ := (run_shows quietEnv openPair).ok run
  obtain ⟨packed, V1, shows1, _⟩ := sent_word shows (by decide) (by decide) (by decide) play sent
  exact ⟨replies, m, m', heap, m1, run, found, play, sent,
    not_echoed shows1 (by decide) (by decide) (by decide) (by decide) packed _ _ _⟩

theorem echoed_iff_note : ∃ m1 : Midi,
    Echoed quietEnv 0 0x00643C90 quietHeap (smoothly 0) m1 (messageTable 0x90 1 60 100) ↔
      (1 : Nat) = 1 := by
  obtain ⟨replies, m, m', heap, m1, run, found, play, sent⟩ := played 1
    0x00643C90 (by decide +kernel)
  exact ⟨m1, echoed_iff quietEnv run found (by decide) (by decide) (by decide) (by decide)
    (by decide) play sent⟩

end ProfiLua

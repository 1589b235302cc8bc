import ProfiLua.Midi.Functions

/-!
What the memory of the MIDI library shows.

A `View` lists the devices in the order of the linked lists, each input with its
events, the newest first, and the events that are allocated but in no list.
`Shows m V` says that the pointers of `m` make up these lists and that nothing
else is allocated. The lemmas say what the list functions do to the view; none
of them is ever at fault in a state that shows one.
-/

namespace ProfiLua

open Program

/-- An opened input: where its device is, the device, and its events. -/
structure Input where
  addr : Nat
  dev : MidiInDev
  queue : List (Nat × MidiInEvent)

namespace Input

def number (d : Input) : UInt32 := d.dev.number

def handle (d : Input) : Handle := d.dev.handle

/-- The events, the newest first. -/
def events (d : Input) : List MidiInEvent := d.queue.map Prod.snd

def cell (d : Input) : Nat × MidiInDev := (d.addr, d.dev)

/-- The input after an event was put at the start of its list. -/
def received (d : Input) (a : Nat) (ev : MidiInEvent) : Input :=
  { d with dev := { d.dev with pMidiInEventList := some a }, queue := (a, ev) :: d.queue }

/-- The head of a list that was cut down to these entries. -/
def cutHead (head : Option Nat) (front : List (Nat × MidiInEvent)) : Option Nat :=
  if front = [] then none else head

/-- The input with only these events left of its list. -/
def cut (d : Input) (front : List (Nat × MidiInEvent)) : Input :=
  { d with
    dev := { d.dev with pMidiInEventList := cutHead d.dev.pMidiInEventList front }
    queue := front }

end Input

structure View where
  outs : List (Nat × MidiOutDev)
  ins : List Input
  /-- Events that are in no list. -/
  leaked : List Nat
  driver : Driver

namespace View

/-- Every allocated event. -/
def eventAddrs (V : View) : List Nat :=
  (V.ins.flatMap fun d => d.queue.map Prod.fst) ++ V.leaked

/-- The input opened under a number. -/
def input (V : View) (n : UInt32) : Option Input := V.ins.find? fun d => d.number = n

/-- The output opened under a number. -/
def output (V : View) (n : UInt32) : Option (Nat × MidiOutDev) :=
  V.outs.find? fun d => d.2.number = n

end View

/-- The memory holds the lists of the view and nothing else. -/
structure Shows (m : Midi) (V : View) : Prop where
  outs : Chain m.outDevs m.pMidiOutDevList V.outs
  outCells : ∀ a, m.outDevs.Allocated a ↔ a ∈ V.outs.map Prod.fst
  ins : Chain m.inDevs m.pMidiInDevList (V.ins.map Input.cell)
  inCells : ∀ a, m.inDevs.Allocated a ↔ a ∈ V.ins.map Input.addr
  queues : ∀ d ∈ V.ins, Chain m.events d.dev.pMidiInEventList d.queue
  eventCells : ∀ a, m.events.Allocated a ↔ a ∈ V.eventAddrs
  apart : V.eventAddrs.Nodup
  driver : m.driver = V.driver

/-- The memory decides the inputs and their events: a chain from a given head
has one list of cells, and so has each queue. -/
theorem Shows.ins_unique {m : Midi} {V V' : View} (h : Shows m V) (h' : Shows m V') :
    V.ins = V'.ins := by
  have cells := h.ins.unique h'.ins
  -- two inputs with the same cell have the same queue, as both start at its pointer
  have queue : ∀ d ∈ V.ins, ∀ d' ∈ V'.ins, d.cell = d'.cell → d = d' := by
    intro d mem d' mem' same
    obtain ⟨addr, dev, queue⟩ := d
    obtain ⟨addr', dev', queue'⟩ := d'
    cases same
    have events : queue = queue' := (h.queues ⟨addr, dev, queue⟩ mem).unique
      (h'.queues ⟨addr, dev, queue'⟩ mem')
    rw [events]
  refine List.ext_getElem (by simpa using congrArg List.length cells) fun i lt lt' => ?_
  refine queue _ (List.getElem_mem lt) _ (List.getElem_mem lt') ?_
  have at_ := congrArg (fun l => l[i]?) cells
  simpa [lt, lt'] using at_

/-- The view of the library as it is loaded. -/
def View.init : View := ⟨[], [], [], ⟨[], [], []⟩⟩

theorem shows_init : Shows Midi.init View.init where
  outs := .nil
  outCells _ := by simp [Midi.init, View.init, Pool.Allocated]
  ins := .nil
  inCells _ := by simp [Midi.init, View.init, Pool.Allocated]
  queues _ mem := by cases mem
  eventCells _ := by simp [Midi.init, View.init, View.eventAddrs, Pool.Allocated]
  apart := List.nodup_nil
  driver := rfl

section Lists

variable {m : Midi} {V : View} {before after : List Input} {d : Input}

/-! ### Looking devices up -/

/-- Looking a device up walks its list, so it finds the first of its number. The
fuel is the number of cells, and a chain is no longer than that. -/
theorem run_getMidiInEntry (shows : Shows m V) (num : UInt32) :
    getMidiInEntry num m = .ok ((V.input num).map Input.addr) m := by
  have found := shows.ins.find (fun d => decide (d.number = num)) shows.ins.length_le
  unfold getMidiInEntry
  rw [run_bind_ok (run_get m), run_orFault found, List.find?_map, Option.map_map]
  rfl

theorem run_getMidiOutEntry (shows : Shows m V) (num : UInt32) :
    getMidiOutEntry num m = .ok ((V.output num).map Prod.fst) m := by
  have found := shows.outs.find (fun d => decide (d.number = num)) shows.outs.length_le
  unfold getMidiOutEntry
  rw [run_bind_ok (run_get m), run_orFault found]
  rfl

/-- The cell of an opened input. -/
theorem Shows.inCell (shows : Shows m V) (mem : d ∈ V.ins) :
    ∃ next, m.inDevs.cell d.addr = some ⟨d.dev, next⟩ :=
  shows.ins.cell_of_mem (List.mem_map.mpr ⟨d, mem, rfl⟩)

theorem run_inHandle (shows : Shows m V) (mem : d ∈ V.ins) :
    inHandle d.addr m = .ok d.handle m := by
  obtain ⟨next, cell⟩ := shows.inCell mem
  exact ok_bind (run_get m) (ok_bind (run_orFault cell m) rfl)

theorem run_outHandle (shows : Shows m V) {x : Nat × MidiOutDev} (mem : x ∈ V.outs) :
    outHandle x.1 m = .ok x.2.handle m := by
  obtain ⟨next, cell⟩ := shows.outs.cell_of_mem mem
  exact ok_bind (run_get m) (ok_bind (run_orFault cell m) rfl)

/-! ### Changing one input -/

/-- One input is changed, and the events of the others stay where they are.
Receiving and fetching both go through this: each changes one device cell and
one queue. -/
theorem Shows.update (shows : Shows m V) (split : V.ins = before ++ d :: after) (e : Input)
    (addr : e.addr = d.addr) {inDevs : Pool MidiInDev} {events : Pool MidiInEvent}
    (self : inDevs.cell d.addr = (m.inDevs.cell d.addr).map fun n => { n with val := e.dev })
    (other : ∀ a, a ≠ d.addr → inDevs.cell a = m.inDevs.cell a)
    (queue : Chain events e.dev.pMidiInEventList e.queue)
    (rest : ∀ c ∈ before ++ after, ∀ a ∈ c.queue.map Prod.fst, events.cell a = m.events.cell a)
    (cells : ∀ a, events.Allocated a ↔ a ∈ View.eventAddrs { V with ins := before ++ e :: after })
    (apart : (View.eventAddrs { V with ins := before ++ e :: after }).Nodup) :
    Shows { m with inDevs := inDevs, events := events }
      { V with ins := before ++ e :: after } := by
  have mem : d ∈ V.ins := by simp [split]
  obtain ⟨next, cell⟩ := shows.inCell mem
  rw [cell, Option.map_some] at self
  have chain := shows.ins
  have devCells := shows.inCells
  rw [split] at chain devCells
  simp only [List.map_append, List.map_cons] at chain devCells
  have elsewhere := chain.ne_of_mem
  refine ⟨shows.outs, shows.outCells, ?_, fun a => ?_, fun c mem => ?_, cells, apart,
    shows.driver⟩
  · have tail : Chain m.inDevs next (after.map Input.cell) := by
      have behind := chain.suffix
      cases behind with
      | cons cell' tail =>
          rw [cell] at cell'
          cases cell'
          exact tail
    simp only [List.map_append, List.map_cons]
    have same : e.cell = (d.addr, e.dev) := by rw [← addr]; rfl
    rw [same]
    exact chain.relink (fun b mem => other b (elsewhere.1 b mem)) self
      (tail.frame fun b mem => other b (elsewhere.2 b mem))
  · have allocated : inDevs.Allocated a ↔ m.inDevs.Allocated a := by
      unfold Pool.Allocated
      by_cases here : a = d.addr
      · simp [here, self, cell]
      · rw [other a here]
    rw [allocated, devCells, List.map_append, List.map_cons, addr]
  · obtain mem | rfl | mem : c ∈ before ∨ c = e ∨ c ∈ after := by simpa using mem
    · refine (shows.queues c (by simp [split, mem])).frame (rest c (by simp [mem]))
    · exact queue
    · exact (shows.queues c (by simp [split, mem])).frame (rest c (by simp [mem]))

/-- The events of one input and those of the others are different cells: all
addresses together occur once. -/
theorem Shows.queue_apart (shows : Shows m V) (split : V.ins = before ++ d :: after) {c : Input}
    (mem : c ∈ before ++ after) {a : Nat} (inside : a ∈ c.queue.map Prod.fst) :
    a ∉ d.queue.map Prod.fst := by
  intro again
  have once := List.nodup_iff_count_le_one.mp shows.apart a
  have self := List.count_pos_iff.mpr again
  have other : 0 < List.count a ((before ++ after).flatMap fun d => d.queue.map Prod.fst) :=
    List.count_pos_iff.mpr (List.mem_flatMap.mpr ⟨c, mem, inside⟩)
  simp only [View.eventAddrs, split, List.flatMap_append, List.flatMap_cons, List.count_append]
    at once other
  omega

/-- The events of an input are counted among all. -/
theorem View.mem_eventAddrs (mem : d ∈ V.ins) {a : Nat} (inside : a ∈ d.queue.map Prod.fst) :
    a ∈ V.eventAddrs :=
  List.mem_append_left _ (List.mem_flatMap.mpr ⟨d, mem, inside⟩)

/-! ### Receiving an event -/

/-- A new event goes to the start of the list: the oldest one is the last. Both
cells are written, the event's pointer first. -/
theorem run_addMidiInEvent {dev e : Nat} {v : MidiInDev} {ev : MidiInEvent}
    {next next' : Option Nat} (cell : m.inDevs.cell dev = some ⟨v, next⟩)
    (event : m.events.cell e = some ⟨ev, next'⟩) :
    addMidiInEvent (some dev) (some e) m = .ok ⟨⟩ { m with
      events := m.events.put e ⟨ev, v.pMidiInEventList⟩
      inDevs := m.inDevs.put dev ⟨{ v with pMidiInEventList := some e }, next⟩ } := by
  unfold addMidiInEvent
  simp only
  rw [run_bind_ok (run_get m), run_bind_ok (run_orFault cell m), run_bind_ok (run_orFault event m)]
  rfl

/-- Putting a new event into the list of an opened input. Its cell is new, so no
queue is touched but the one it goes into. -/
theorem run_receive (shows : Shows m V) (split : V.ins = before ++ d :: after) (ev : MidiInEvent) :
    ∃ m', addMidiInEvent (some d.addr) (some m.events.bound)
        { m with events := m.events.alloc ⟨ev, none⟩ } = .ok ⟨⟩ m' ∧
      Shows m' { V with ins := before ++ d.received m.events.bound ev :: after } := by
  have mem : d ∈ V.ins := by simp [split]
  obtain ⟨next, cell⟩ := shows.inCell mem
  have unused : m.events.bound ∉ V.eventAddrs := fun inside =>
    (shows.eventCells _).mpr inside (m.events.fresh _ (Nat.le_refl _))
  have new := m.events.alloc_cell_self ⟨ev, none⟩
  refine ⟨_, run_addMidiInEvent cell new, ?_⟩
  have perm : (View.eventAddrs
      { V with ins := before ++ d.received m.events.bound ev :: after }).Perm
        (m.events.bound :: V.eventAddrs) := by
    refine List.perm_iff_count.mpr fun x => ?_
    simp only [View.eventAddrs, split, Input.received, List.flatMap_append, List.flatMap_cons,
      List.map_cons, List.count_append, List.count_cons, List.cons_append]
    omega
  have known : ∀ c ∈ V.ins, ∀ a ∈ c.queue.map Prod.fst, a ≠ m.events.bound :=
    fun c mem a inside same => unused (same ▸ View.mem_eventAddrs mem inside)
  refine shows.update split (d.received m.events.bound ev) rfl ?_ ?_ ?_ ?_ ?_ ?_
  · rw [Pool.put_cell_self cell, cell]
    rfl
  · exact fun a ne => Pool.put_cell_of_ne _ ne _
  · exact (shows.queues d mem).push _ _
  · intro c inside a mem'
    exact Pool.push_cell_of_ne _ _ _ (known c (by simp [split] at inside ⊢; tauto) a mem')
  · intro a
    rw [Pool.push_allocated, shows.eventCells, perm.mem_iff]
    simp
  · exact perm.nodup_iff.mpr (List.nodup_cons.mpr ⟨unused, shows.apart⟩)

/-- An event for which no input is open leaks: it is allocated, and no list has
it. -/
theorem Shows.leak (shows : Shows m V) (ev : MidiInEvent) :
    Shows { m with events := m.events.alloc ⟨ev, none⟩ }
      { V with leaked := m.events.bound :: V.leaked } := by
  have unused : m.events.bound ∉ V.eventAddrs := fun inside =>
    (shows.eventCells _).mpr inside (m.events.fresh _ (Nat.le_refl _))
  have perm : (View.eventAddrs { V with leaked := m.events.bound :: V.leaked }).Perm
      (m.events.bound :: V.eventAddrs) := by
    simp only [View.eventAddrs]
    exact List.perm_middle
  refine ⟨shows.outs, shows.outCells, shows.ins, shows.inCells, fun c mem => ?_, fun a => ?_, ?_,
    shows.driver⟩
  · refine (shows.queues c mem).frame fun a inside => m.events.alloc_cell_of_ne _ fun same => ?_
    exact unused (same ▸ View.mem_eventAddrs (V := V) mem inside)
  · rw [Pool.alloc_allocated, shows.eventCells, perm.mem_iff]
    simp
  · exact perm.nodup_iff.mpr (List.nodup_cons.mpr ⟨unused, shows.apart⟩)

/-! ### Taking events out -/

/-- From `m` to `m'` only the list of the device at `dev` was cut down, from
`queue` to `front`, and the other entries freed. -/
structure Cut (dev : Nat) (d : MidiInDev) (queue front : List (Nat × MidiInEvent))
    (m m' : Midi) : Prop where
  rest : m' = { m with inDevs := m'.inDevs, events := m'.events }
  self : m'.inDevs.cell dev = (m.inDevs.cell dev).map fun n =>
    { n with val := { d with pMidiInEventList := Input.cutHead d.pMidiInEventList front } }
  other : ∀ a, a ≠ dev → m'.inDevs.cell a = m.inDevs.cell a
  chain : Chain m'.events (Input.cutHead d.pMidiInEventList front) front
  outside : ∀ a, a ∉ queue.map Prod.fst → m'.events.cell a = m.events.cell a
  cells : ∀ a, m'.events.Allocated a ↔
    m.events.Allocated a ∧ (a ∈ queue.map Prod.fst → a ∈ front.map Prod.fst)

/-- `RemoveMidiInEvent` on an empty list. -/
theorem run_removeMidiInEvent_nil {dev : Nat} {v : MidiInDev} {next : Option Nat}
    (cell : m.inDevs.cell dev = some ⟨v, next⟩) (empty : v.pMidiInEventList = none) :
    removeMidiInEvent (some dev) m = .ok none m := by
  unfold removeMidiInEvent
  simp only
  rw [run_bind_ok (run_get m), run_bind_ok (run_orFault cell m)]
  simp only [empty]
  rfl

/-- An event that is freed gives its contents away first. -/
theorem run_freeEvent {p : Nat} {ev : MidiInEvent} {next : Option Nat}
    (cell : m.events.cell p = some ⟨ev, next⟩) :
    freeEvent p m = .ok ev { m with events := m.events.erase p } := by
  unfold freeEvent
  rw [run_bind_ok (run_get m), run_bind_ok (run_orFault cell m),
    run_bind_ok (run_orFault (Pool.free_of_cell cell) m)]
  rfl

theorem run_unchain_none {dev : Nat} {v : MidiInDev} {next : Option Nat}
    (cell : m.inDevs.cell dev = some ⟨v, next⟩) :
    unchain dev none m = .ok ⟨⟩ { m with
      inDevs := m.inDevs.put dev ⟨{ v with pMidiInEventList := none }, next⟩ } := by
  exact ok_bind (run_get m) (ok_bind (run_orFault cell m) rfl)

/-- Otherwise the list ends with the event before the last. -/
theorem run_unchain_some {dev prev : Nat} {ev : MidiInEvent} {next : Option Nat}
    (cell : m.events.cell prev = some ⟨ev, next⟩) :
    unchain dev (some prev) m = .ok ⟨⟩ { m with events := m.events.put prev ⟨ev, none⟩ } := by
  exact ok_bind (run_get m) (ok_bind (run_orFault cell m) rfl)

/-- `RemoveMidiInEvent` takes the last entry, the oldest event. It walks to the
end of the list and remembers the entry before; the list then ends there, or is
empty if there was none. -/
theorem run_removeMidiInEvent {dev p : Nat} {v : MidiInDev} {next : Option Nat}
    {front : List (Nat × MidiInEvent)} {ev : MidiInEvent}
    (cell : m.inDevs.cell dev = some ⟨v, next⟩)
    (chain : Chain m.events v.pMidiInEventList (front ++ [(p, ev)])) :
    ∃ m', removeMidiInEvent (some dev) m = .ok (some ev) m' ∧
      Cut dev v (front ++ [(p, ev)]) front m m' := by
  obtain ⟨first, head⟩ := chain.exists_head (by simp)
  have short : front.length < m.events.bound := by
    have size := chain.length_le
    simp at size
    omega
  have walk := (head ▸ chain).last short none
  obtain ⟨next', entry⟩ := chain.cell_of_mem (a := p) (v := ev) (by simp)
  have apart := chain.ne_of_mem
  have freed : ∀ a, (a ≠ p ∧ m.events.Allocated a) ↔ m.events.Allocated a ∧
      (a ∈ (front ++ [(p, ev)]).map Prod.fst → a ∈ front.map Prod.fst) := by
    intro a
    constructor
    · rintro ⟨ne, allocated⟩
      refine ⟨allocated, fun mem => ?_⟩
      simpa [ne] using mem
    · rintro ⟨allocated, inside⟩
      refine ⟨?_, allocated⟩
      rintro rfl
      exact apart.1 a (inside (by simp)) rfl
  unfold removeMidiInEvent
  simp only
  rw [run_bind_ok (run_get m), run_bind_ok (run_orFault cell m)]
  simp only [head]
  rw [run_bind_ok (run_orFault walk m)]
  -- one event only: the device's pointer is cleared; otherwise the previous one's
  obtain rfl | ⟨init, ⟨c, w⟩, rfl⟩ := List.eq_nil_or_concat' front
  · simp only [List.getLast?_nil, Option.map_none, Option.or_none]
    refine ⟨_, ok_bind (run_unchain_none cell) (ok_bind (run_freeEvent entry) rfl), rfl, ?_,
      fun a ne => Pool.put_cell_of_ne _ ne _, .nil, fun a out => ?_, fun a => ?_⟩
    · rw [Pool.put_cell_self cell, cell]
      rfl
    · exact Pool.erase_cell_of_ne _ (by simpa using out)
    · exact (Pool.erase_allocated _ p a).trans (freed a)
  · rw [List.append_assoc, List.singleton_append] at chain
    obtain ⟨next'', previous⟩ := chain.cell_of_mem (a := c) (v := w) (by simp)
    have before := chain.ne_of_mem
    have ne : c ≠ p := apart.1 c (by simp)
    have entry' : (m.events.put c ⟨w, none⟩).cell p = some ⟨ev, next'⟩ := by
      rw [Pool.put_cell_of_ne _ (Ne.symm ne)]
      exact entry
    simp only [List.getLast?_concat, Option.map_some, Option.some_or]
    have kept : Input.cutHead v.pMidiInEventList (init ++ [(c, w)]) = v.pMidiInEventList := by
      simp [Input.cutHead]
    refine ⟨_, ok_bind (run_unchain_some previous) (ok_bind (run_freeEvent entry') rfl), rfl, ?_,
      fun a ne => rfl, ?_, fun a out => ?_, fun a => ?_⟩
    · rw [kept, cell]
      rfl
    · rw [kept]
      refine chain.relink (fun b mem => ?_) ?_ .nil
      · exact (Pool.erase_cell_of_ne _ (apart.1 b (by simp [mem]))).trans
          (Pool.put_cell_of_ne _ (before.1 b mem) _)
      · exact (Pool.erase_cell_of_ne _ ne).trans (Pool.put_cell_self previous _)
    · simp only [List.map_append, List.mem_append, not_or] at out
      refine (Pool.erase_cell_of_ne _ (by simpa using out.2)).trans (Pool.put_cell_of_ne _ ?_ _)
      simpa using out.1.2
    · rw [Pool.erase_allocated, Pool.put_allocated previous]
      exact freed a

/-- Fetching an event takes the oldest one of the input and frees its cell; the
queues of the others lie elsewhere. -/
theorem run_fetch (shows : Shows m V) (split : V.ins = before ++ d :: after) {p : Nat}
    {front : List (Nat × MidiInEvent)} {ev : MidiInEvent} (queue : d.queue = front ++ [(p, ev)]) :
    ∃ m', removeMidiInEvent (some d.addr) m = .ok (some ev) m' ∧
      Shows m' { V with ins := before ++ d.cut front :: after } := by
  have mem : d ∈ V.ins := by simp [split]
  obtain ⟨next, cell⟩ := shows.inCell mem
  have chain := shows.queues d mem
  rw [queue] at chain
  obtain ⟨m', run, taken⟩ := run_removeMidiInEvent cell chain
  refine ⟨m', run, ?_⟩
  have perm : V.eventAddrs.Perm
      (p :: View.eventAddrs { V with ins := before ++ d.cut front :: after }) := by
    refine List.perm_iff_count.mpr fun x => ?_
    simp only [View.eventAddrs, split, Input.cut, queue, List.flatMap_append, List.flatMap_cons,
      List.map_append, List.map_cons, List.map_nil, List.count_append, List.count_cons,
      List.count_nil]
    omega
  obtain ⟨gone, distinct⟩ := List.nodup_cons.mp (perm.nodup_iff.mp shows.apart)
  have left : ∀ a ∈ front.map Prod.fst,
      a ∈ View.eventAddrs { V with ins := before ++ d.cut front :: after } := fun a inside =>
    View.mem_eventAddrs (d := d.cut front) (by simp) inside
  rw [taken.rest]
  refine shows.update split (d.cut front) rfl taken.self taken.other taken.chain ?_ ?_ ?_
  · intro c inside a mem'
    refine taken.outside a ?_
    rw [← queue]
    exact shows.queue_apart split inside mem'
  · intro a
    rw [taken.cells, shows.eventCells, perm.mem_iff, List.mem_cons]
    constructor
    · rintro ⟨rfl | inside, still⟩
      · exact left a (still (by simp))
      · exact inside
    · intro inside
      refine ⟨.inr inside, fun mem' => ?_⟩
      have ne : a ≠ p := fun same => gone (same ▸ inside)
      simpa [ne] using mem'
  · exact distinct

/-- The loop ends with the list empty: each round takes the last event, so there
are as many rounds as events. By induction on the fuel, over all queues. -/
theorem run_drain {dev fuel : Nat} {v : MidiInDev} {next : Option Nat}
    {queue : List (Nat × MidiInEvent)} (cell : m.inDevs.cell dev = some ⟨v, next⟩)
    (chain : Chain m.events v.pMidiInEventList queue) (enough : queue.length < fuel) :
    ∃ m', drain (some dev) fuel m = .ok ⟨⟩ m' ∧ Cut dev v queue [] m m' := by
  induction fuel generalizing m v queue with
  | zero => omega
  | succ fuel ih =>
      obtain rfl | ⟨front, ⟨p, ev⟩, rfl⟩ := List.eq_nil_or_concat' queue
      · have empty := Chain.nil_iff.mp chain
        refine ⟨m, ok_bind (run_removeMidiInEvent_nil cell empty) rfl, rfl, ?_, fun _ _ => rfl,
          .nil, fun _ _ => rfl, fun _ => by simp⟩
        rw [cell, Option.map_some, Input.cutHead, if_pos rfl, ← empty]
      · obtain ⟨m1, first, cut⟩ := run_removeMidiInEvent cell chain
        have cell1 := cut.self
        rw [cell, Option.map_some] at cell1
        obtain ⟨m2, later, rest⟩ := ih cell1 cut.chain (by simp at enough ⊢; omega)
        refine ⟨m2, ok_bind first later, ?_, ?_, fun a ne => ?_, .nil, fun a out => ?_, fun a => ?_⟩
        · rw [rest.rest, cut.rest]
        · rw [rest.self, cell1, cell]
          rfl
        · rw [rest.other a ne, cut.other a ne]
        · rw [rest.outside a fun inside => out (by simp at inside ⊢; tauto), cut.outside a out]
        · rw [rest.cells, cut.cells]
          simp only [List.map_nil, List.not_mem_nil, imp_false, List.map_append, List.mem_append]
          tauto

/-! ### Devices -/

/-- What the driver does leaves the memory as it is: its list of open handles is
a part of the state that no list of ours points into. -/
theorem Shows.drive (shows : Shows m V) (f : Driver → Driver) :
    Shows { m with driver := f m.driver } { V with driver := f V.driver } :=
  ⟨shows.outs, shows.outCells, shows.ins, shows.inCells, shows.queues, shows.eventCells,
    shows.apart, congrArg f shows.driver⟩

/-- A new input: allocated, filled in and added. -/
theorem run_addMidiIn (shows : Shows m V) (number : UInt32) (handle : Handle) :
    ∃ m1 m2, mallocMidiIn number handle m = .ok m.inDevs.bound m1 ∧
      addMidiIn (some m.inDevs.bound) m1 = .ok ⟨⟩ m2 ∧
      Shows m2 { V with ins := ⟨m.inDevs.bound, ⟨number, handle, none⟩, []⟩ :: V.ins } := by
  have new := m.inDevs.alloc_cell_self ⟨⟨number, handle, none⟩, none⟩
  refine ⟨_, _, rfl, ok_bind (run_get _) (ok_bind (run_orFault new _) rfl), ?_⟩
  refine ⟨shows.outs, shows.outCells, shows.ins.push _ _, fun a => ?_, fun c mem => ?_,
    shows.eventCells, shows.apart, shows.driver⟩
  · rw [Pool.push_allocated, shows.inCells]
    simp
  · cases mem with
    | head => exact .nil
    | tail _ mem => exact shows.queues c mem

theorem run_addMidiOut (shows : Shows m V) (number : UInt32) (handle : Handle) :
    ∃ m1 m2, mallocMidiOut number handle m = .ok m.outDevs.bound m1 ∧
      addMidiOut (some m.outDevs.bound) m1 = .ok ⟨⟩ m2 ∧
      Shows m2 { V with outs := (m.outDevs.bound, ⟨number, handle⟩) :: V.outs } := by
  have new := m.outDevs.alloc_cell_self ⟨⟨number, handle⟩, none⟩
  refine ⟨_, _, rfl, ok_bind (run_get _) (ok_bind (run_orFault new _) rfl), ?_⟩
  refine ⟨shows.outs.push _ _, fun a => ?_, shows.ins, shows.inCells, shows.queues,
    shows.eventCells, shows.apart, shows.driver⟩
  rw [Pool.push_allocated, shows.outCells]
  simp

/-- Removing an output frees its device. The unlinking either moves the head of
the list or the pointer before, and touches no other cell. -/
theorem run_removeMidiOut (shows : Shows m V) {before after : List (Nat × MidiOutDev)} {a : Nat}
    {dev : MidiOutDev} (split : V.outs = before ++ (a, dev) :: after) :
    ∃ m', removeMidiOut (some a) m = .ok ⟨⟩ m' ∧ Shows m' { V with outs := before ++ after } := by
  have chain := shows.outs
  have cells := shows.outCells
  rw [split] at chain cells
  have without := chain.mem_without
  obtain ⟨outDevs, head, unlinked, rest, untouched, kept⟩ := chain.unlink
  obtain ⟨next, cell⟩ := chain.cell_of_mem (a := a) (v := dev) (by simp)
  have self : outDevs.cell a = some ⟨dev, next⟩ := by
    rw [untouched a fun inside => chain.ne_of_mem.1 a inside rfl]
    exact cell
  refine ⟨_, ok_bind (run_get m) (ok_bind (run_orFault unlinked m)
    (ok_bind (run_orFault (Pool.free_of_cell self) m) rfl)), ?_⟩
  refine ⟨rest.erase fun inside => ((without a).mp inside).1 rfl, fun b => ?_, shows.ins,
    shows.inCells, shows.queues, shows.eventCells, shows.apart, shows.driver⟩
  rw [Pool.erase_allocated, kept, cells, without]

/-- Removing an input unlinks it, frees its events, and then its device. The
events of the others and the rest of the list stay as they are. -/
theorem run_removeMidiIn (shows : Shows m V) (split : V.ins = before ++ d :: after) :
    ∃ m', removeMidiIn (some d.addr) m = .ok ⟨⟩ m' ∧
      Shows m' { V with ins := before ++ after } := by
  have mem : d ∈ V.ins := by simp [split]
  have chain := shows.ins
  rw [split, List.map_append, List.map_cons] at chain
  have without : ∀ b, b ∈ (before ++ after).map Input.addr ↔
      b ≠ d.addr ∧ b ∈ V.ins.map Input.addr := by
    intro b
    have addrs : ∀ l : List Input, (l.map Input.cell).map Prod.fst = l.map Input.addr := fun l => by
      rw [List.map_map]
      rfl
    have removed := chain.mem_without b
    rw [← Input.cell, ← List.map_cons, ← List.map_append, ← List.map_append, addrs,
      addrs] at removed
    rw [split]
    exact removed
  obtain ⟨inDevs, head, unlinked, rest, untouched, kept⟩ := chain.unlink
  obtain ⟨next, cell⟩ := chain.cell_of_mem (a := d.addr) (v := d.dev) (by simp [Input.cell])
  have self : inDevs.cell d.addr = some ⟨d.dev, next⟩ := by
    rw [untouched d.addr fun inside => chain.ne_of_mem.1 d.addr inside rfl]
    exact cell
  have queue := shows.queues d mem
  obtain ⟨m', drained, cut⟩ := run_drain
    (m := { m with inDevs := inDevs, pMidiInDevList := head }) self queue
    (Nat.lt_succ_of_le queue.length_le)
  have last := cut.self
  simp only [self, Option.map_some] at last
  refine ⟨_, ok_bind (run_get m) (ok_bind (run_orFault unlinked m) (ok_bind rfl (ok_bind drained
    (ok_bind (run_get m') (ok_bind (run_orFault (Pool.free_of_cell last) m') rfl))))), ?_⟩
  have same : ∀ b, b ≠ d.addr → (m'.inDevs.erase d.addr).cell b = inDevs.cell b := fun b ne =>
    (Pool.erase_cell_of_ne _ ne).trans (cut.other b ne)
  have perm : V.eventAddrs.Perm
      (d.queue.map Prod.fst ++ View.eventAddrs { V with ins := before ++ after }) := by
    refine List.perm_iff_count.mpr fun x => ?_
    simp only [View.eventAddrs, split, List.flatMap_append, List.flatMap_cons, List.count_append]
    omega
  obtain ⟨_, distinct, disjoint⟩ := List.nodup_append.mp (perm.nodup_iff.mp shows.apart)
  rw [cut.rest]
  refine ⟨shows.outs, shows.outCells, ?_, fun b => ?_, fun c inside => ?_, fun b => ?_, distinct,
    shows.driver⟩
  · rw [← List.map_append] at rest
    refine rest.frame fun b inside => same b ?_
    rw [List.map_map] at inside
    exact ((without b).mp inside).1
  -- draining frees events, not devices
  · have alive : b ≠ d.addr → (m'.inDevs.Allocated b ↔ m.inDevs.Allocated b) := fun ne => by
      rw [← kept b]
      unfold Pool.Allocated
      rw [cut.other b ne]
    rw [Pool.erase_allocated, without]
    exact and_congr_right fun ne => (alive ne).trans (shows.inCells b)
  · refine (shows.queues c (by simp [split] at inside ⊢; tauto)).frame fun b mem' => ?_
    exact cut.outside b (shows.queue_apart split inside mem')
  · rw [cut.cells]
    simp only [List.map_nil, List.not_mem_nil, imp_false]
    rw [shows.eventCells, perm.mem_iff, List.mem_append]
    constructor
    · rintro ⟨inside | inside, out⟩
      · exact absurd inside out
      · exact inside
    · intro inside
      exact ⟨.inr inside, fun again => disjoint b again b inside rfl⟩

end Lists

end ProfiLua

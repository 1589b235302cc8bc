import ProfiLua.Lua.Library
import ProfiLua.Program.Scatter

/-!
Lua tables as they are kept (`ltable.c`, `lobject.c`).

A table has an array part and a hash part. The hash part is a vector of nodes
whose size is a power of two: a chained scatter table with Brent's variation.
Keys are never removed. An entry whose value is nil is found as any other, its
node may be given to another key, and the collector may mark the key as dead.

A pointer to a value is a `Slot`; `luaO_nilobject` is `none`. Blocks are never
refused. `flags` (a cache for metamethods), the metatable and what links a table
to the collector are left out.
-/

namespace ProfiLua

open Program

/-- What the hash functions read off a key: the sum of the words of a number,
the hash a string carries, and an address. -/
structure Hashes extends Casts where
  number : LuaNumber → Nat
  string : Bytes → Nat
  pointer : TValue → Nat

/-- `luai_numeq`. -/
def LuaNumber.numeq (a b : LuaNumber) : Bool := a = b && a ≠ .nan

/-- `luaO_rawequalObj`. -/
def luaORawequalObj : TValue → TValue → Bool
  | .number a, .number b => a.numeq b
  | a, b => a = b

/-- `iscollectable`. -/
def TValue.iscollectable : TValue → Bool
  | .nil | .boolean _ | .lightuserdata _ | .number _ => false
  | _ => true

/-- `TKey`: nil until the node is used; a dead key keeps the object it was. -/
inductive NodeKey where
  | nil
  | tvk (k : TValue)
  | dead (k : TValue)
deriving DecidableEq

/-- `luaO_rawequalObj(key2tval(n), key)`. -/
def NodeKey.rawequal : NodeKey → TValue → Bool
  | .nil, key => luaORawequalObj .nil key
  | .tvk k, key => luaORawequalObj k key
  | .dead _, _ => false

/-- `Node`, without the link. -/
structure NodeEntry where
  key : NodeKey
  val : TValue
deriving DecidableEq

/-- `dummynode_`, and every node of a new vector. -/
def NodeEntry.unused : NodeEntry := ⟨.nil, .nil⟩

/-- `Table`. -/
structure HashTable where
  array : List TValue
  lsizenode : Nat
  node : Pool NodeEntry
  /-- `node == dummynode`. -/
  dummy : Bool
  /-- Any free position is before this position. -/
  lastfree : Nat

/-- The largest array part, and the largest node vector. -/
def MAXBITS : Nat := 26

def MAXASIZE : Nat := 2 ^ MAXBITS

/-- A pointer to a value of a table. -/
inductive Slot where
  | array (i : Nat)
  | node (i : Nat)
deriving DecidableEq

/-- Why a table function did not return. -/
inductive TableStop where
  /-- "table index is nil" -/
  | indexNil
  /-- "table index is NaN" -/
  | indexNaN
  /-- "table overflow" -/
  | overflow
  /-- "invalid key to 'next'" -/
  | invalidKey
  /-- A pointer led to no node, or a chain had no end. -/
  | fault
  /-- A rehash within a rehash, which the model does not follow. -/
  | nested
deriving DecidableEq

abbrev TableM := Except TableStop

@[simp] theorem TableM.ok_bind {α β : Type} (a : α) (f : α → TableM β) :
    ((Except.ok a : TableM α) >>= f) = f a := rfl

@[simp] theorem TableM.error_bind {α β : Type} (e : TableStop) (f : α → TableM β) :
    ((Except.error e : TableM α) >>= f) = Except.error e := rfl

namespace HashTable

variable (t : HashTable)

def sizearray : Nat := t.array.length

/-- `sizenode`. -/
def sizenode : Nat := 2 ^ t.lsizenode

/-- What a pointer points to. -/
def value : Slot → TValue
  | .array i => t.array.getD i .nil
  | .node i => ((t.node.cell i).map fun n => n.val.val).getD .nil

/-- `setobj2t` through a pointer. -/
def assign (slot : Slot) (v : TValue) : HashTable :=
  match slot with
  | .array i => { t with array := t.array.set i v }
  | .node i =>
      match t.node.cell i with
      | some n => { t with node := t.node.put i { n with val.val := v } }
      | none => t

/-- `removeentry`: what the collector does to an entry without a value. -/
def removeentry (i : Nat) : HashTable :=
  match t.node.cell i with
  | some ⟨⟨.tvk k, .nil⟩, next⟩ =>
      if k.iscollectable then { t with node := t.node.put i ⟨⟨.dead k, .nil⟩, next⟩ } else t
  | _ => t

/-! ### Hash functions -/

/-- `lmod` by the number of nodes. -/
def hashpow2 (h : Nat) : Nat := h &&& (t.sizenode - 1)

def hashmod (h : Nat) : Nat := h % ((t.sizenode - 1) ||| 1)

def hashnum (H : Hashes) (n : LuaNumber) : Nat :=
  if n.numeq (.fin 0) then 0 else t.hashmod (H.number n)

def mainposition (H : Hashes) : TValue → Nat
  | .number n => t.hashnum H n
  | .string s => t.hashpow2 (H.string s)
  | .boolean b => t.hashpow2 b.toNat
  | key => t.hashmod (H.pointer key)

/-- The main position of the key of a node in use; a dead key hashes as an
address. -/
def mainpositionOf (H : Hashes) : NodeKey → TableM Nat
  | .tvk k => .ok (t.mainposition H k)
  | .dead k => .ok (t.hashmod (H.pointer k))
  | .nil => .error .fault

end HashTable

/-- The index of a key that can live in the array part, and -1 for another. -/
def arrayindex (H : Hashes) : TValue → Int
  | .number n =>
      let k := (luaNumber2integer H.toCasts n).toInt
      if (LuaNumber.fin k).numeq n then k else -1
  | _ => -1

/-! ### Search -/

section Search

variable (H : Hashes) (t : HashTable)

/-- The walk from a main position to the first node whose key passes the test. -/
def HashTable.walk (test : NodeKey → Bool) (mp : Nat) : TableM (Option Slot) :=
  match t.node.find (fun e => test e.key) t.node.bound (some mp) with
  | some found => .ok (found.map .node)
  | none => .error .fault

def luaHGetnum (key : Int) : TableM (Option Slot) :=
  -- `cast(unsigned int, key-1) < cast(unsigned int, t->sizearray)`
  if (key - 1) % 2 ^ 32 < t.sizearray then .ok (some (.array (key - 1).toNat))
  else
    let nk : LuaNumber := .fin key
    t.walk (fun | .tvk (.number n) => n.numeq nk | _ => false) (t.hashnum H nk)

def luaHGetstr (key : Bytes) : TableM (Option Slot) :=
  t.walk (fun | .tvk (.string s) => s = key | _ => false) (t.hashpow2 (H.string key))

def luaHGet (key : TValue) : TableM (Option Slot) :=
  let general := t.walk (·.rawequal key) (t.mainposition H key)
  match key with
  | .nil => .ok none
  | .string s => luaHGetstr H t s
  | .number n =>
      let k := (luaNumber2integer H.toCasts n).toInt
      if (LuaNumber.fin k).numeq n then luaHGetnum H t k else general
  | _ => general

/-- What `luaH_get` points to. -/
def luaHGetValue (key : TValue) : TableM TValue :=
  return match ← luaHGet H t key with
    | some slot => t.value slot
    | none => .nil

end Search

/-! ### Insertion -/

/-- Counts `lastfree` down to a node without a key. -/
def getfreepos (node : Pool NodeEntry) : Nat → Option Nat × Nat
  | 0 => (none, 0)
  | lastfree + 1 =>
      match node.cell lastfree with
      | some ⟨⟨.nil, _⟩, _⟩ => (some lastfree, lastfree)
      | _ => getfreepos node lastfree

section Insertion

variable (H : Hashes)
  (full : HashTable → TValue → TableM (HashTable × Slot))

/-- `newkey`; `full` is what is done when there is no free place. -/
def newkey (t : HashTable) (key : TValue) : TableM (HashTable × Slot) :=
  let mp := t.mainposition H key
  match t.node.cell mp with
  | none => .error .fault
  | some m =>
      if m.val.val ≠ .nil ∨ t.dummy then
        match getfreepos t.node t.lastfree with
        | (none, lastfree) => full { t with lastfree := lastfree } key
        | (some n, lastfree) => do
            let othern ← t.mainpositionOf H m.val.key
            if othern ≠ mp then
              -- the colliding node is out of its main position: it moves to the free one
              match t.node.before mp t.node.bound (some othern) with
              | some (some prev) =>
                  match t.node.cell prev with
                  | none => .error .fault
                  | some p =>
                      let node := t.node.put prev { p with next := some n }
                      let node := node.put n m
                      let node := node.put mp ⟨⟨.tvk key, .nil⟩, none⟩
                      return ({ t with node := node, lastfree := lastfree }, .node mp)
              | _ => .error .fault
            else
              -- the new key goes into the free position, behind the colliding node
              match t.node.cell n with
              | none => .error .fault
              | some f =>
                  let node := t.node.put n ⟨{ f.val with key := .tvk key }, m.next⟩
                  let node := node.put mp { m with next := some n }
                  return ({ t with node := node, lastfree := lastfree }, .node n)
      else
        .ok ({ t with node := t.node.put mp { m with val.key := .tvk key } }, .node mp)

def luaHSetWith (t : HashTable) (key : TValue) : TableM (HashTable × Slot) := do
  match ← luaHGet H t key with
  | some slot => return (t, slot)
  | none =>
      match key with
      | .nil => .error .indexNil
      | .number .nan => .error .indexNaN
      | _ => newkey H full t key

def luaHSetnumWith (t : HashTable) (key : Int) : TableM (HashTable × Slot) := do
  match ← luaHGetnum H t key with
  | some slot => return (t, slot)
  | none => newkey H full t (.number (.fin key))

end Insertion

end ProfiLua

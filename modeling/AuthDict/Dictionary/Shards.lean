import AuthDict.Error
import AuthDict.Trie.Basic

/-!
# Shards

A batch of entries is cut into contiguous shards whose sizes differ by one at most, the larger ones
first, and each shard is written entry by entry. The first entry that cannot be written ends its
shard and all that have not started; what has been written stays written.
-/
namespace AuthDict.Shards

variable {α σ : Type}

/-- Cuts `shards` runs off a list, the first `extra` of which are longer by one. -/
def cut (base : Nat) : (extra shards : Nat) → List α → List (List α)
  | _, 0, _ => []
  | 0, shards + 1, entries => entries.take base :: cut base 0 shards (entries.drop base)
  | extra + 1, shards + 1, entries =>
    entries.take (base + 1) :: cut base extra shards (entries.drop (base + 1))

/-- How many shards a batch of a given size is cut into: as many as asked for, but one at least and
no more than there are entries. -/
def count (requested size : Nat) : Nat := min (max requested 1) (max size 1)

def split (entries : List α) (requested : Nat) : List (List α) :=
  let n := count requested entries.length
  cut (entries.length / n) (entries.length % n) n entries

/-- What a shard wrote, and why it ended early if it did. -/
structure Outcome where
  updates : List Update := []
  error : Option Error := none
deriving DecidableEq, Repr

/-- Writes the entries of a shard in order. -/
def writeShard (write : α → Action σ Update) : List α → σ → Outcome × σ
  | [], s => ({}, s)
  | entry :: rest, s =>
    match write entry s with
    | (.error e, s) => ({ error := some e }, s)
    | (.ok update, s) =>
      let (outcome, s) := writeShard write rest s
      ({ outcome with updates := update :: outcome.updates }, s)

def writeAll (write : α → Action σ Update) : List (List α) → σ → Outcome × σ
  | [], s => ({}, s)
  | shard :: rest, s =>
    match writeShard write shard s with
    | ({ updates, error := some e }, s) => ({ updates, error := some e }, s)
    | ({ updates, error := none }, s) =>
      let (outcome, s) := writeAll write rest s
      ({ outcome with updates := updates ++ outcome.updates }, s)

end AuthDict.Shards

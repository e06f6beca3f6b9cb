import AuthDict.Proofs.Binary.Text
import AuthDict.Proofs.Bytes
import AuthDict.Proofs.Text.Utf8

/-!
# Reading what was written

A reader `Reads` bytes as a value if it takes exactly those bytes from the front of any input and
returns the value. Sequences of readers read concatenations, so the law of a compound form follows
from those of its parts; `LawfulBinaryForm` is the law for every value of a type.
-/
namespace AuthDict

namespace Binary

/-- The reader takes the bytes off any input that starts with them and returns the value. -/
def Reader.Reads {α : Type} (r : Reader α) (bs : Bytes) (a : α) : Prop :=
  ∀ rest, r (bs ++ rest) = .ok (a, rest)

namespace Reader

variable {α β : Type}

theorem bind_of_ok {r : Reader α} {f : α → Reader β} {bs mid : Bytes} {a : α}
    (h : r bs = .ok (a, mid)) : (r >>= f) bs = f a mid := by
  simp only [Bind.bind, h]

theorem bind_of_error {r : Reader α} {f : α → Reader β} {bs : Bytes} {e : Fault}
    (h : r bs = .error e) : (r >>= f) bs = .error e := by
  simp only [Bind.bind, h]

theorem Reads.pure (a : α) : (pure a : Reader α).Reads [] a := fun _ => rfl

theorem Reads.bind {r : Reader α} {f : α → Reader β} {bs cs : Bytes} {a : α} {b : β}
    (hr : r.Reads bs a) (hf : (f a).Reads cs b) : (r >>= f).Reads (bs ++ cs) b := by
  intro rest
  rw [List.append_assoc, bind_of_ok (hr _)]
  exact hf rest

theorem bind_eq_ok {r : Reader α} {f : α → Reader β} {bs rest : Bytes} {b : β} :
    (r >>= f) bs = .ok (b, rest) ↔ ∃ a mid, r bs = .ok (a, mid) ∧ f a mid = .ok (b, rest) := by
  constructor
  · intro h
    cases hr : r bs with
    | error e =>
      rw [bind_of_error hr] at h
      cases h
    | ok out =>
      rw [bind_of_ok hr] at h
      exact ⟨out.1, out.2, rfl, h⟩
  · rintro ⟨a, mid, hr, hf⟩
    rw [bind_of_ok hr]
    exact hf

theorem Reads.bind_nil {r : Reader α} {f : α → Reader β} {bs : Bytes} {a : α} {b : β}
    (hr : r.Reads bs a) (hf : (f a).Reads [] b) : (r >>= f).Reads bs b := by
  have h := hr.bind hf
  rwa [List.append_nil] at h

/-- The last reader of a sequence, after which the value is put together. -/
theorem Reads.map {r : Reader α} {f : α → β} {bs : Bytes} {a : α} (hr : r.Reads bs a) :
    (r >>= fun a => Pure.pure (f a)).Reads bs (f a) := hr.bind_nil (.pure (f a))

theorem reads_take (bs : Bytes) : (take bs.length).Reads bs bs := by
  intro rest
  simp [take]

theorem reads_block {n : Nat} (b : Block n) : (block n).Reads b.bytes b := by
  obtain ⟨bs, rfl⟩ := b
  intro rest
  simp [block]

theorem reads_nat {n k : Nat} (h : k < 256 ^ n) : (nat n).Reads (leBytes n k) k := by
  have htake := reads_take (leBytes n k)
  rw [length_leBytes] at htake
  have hmap := htake.map (f := ofLE)
  rwa [ofLE_leBytes, Nat.mod_eq_of_lt h] at hmap

theorem reads_byte (b : UInt8) : byte.Reads [b] b := fun _ => rfl

theorem reads_choice {count index : Nat} (h : index < count) (hc : count ≤ 256 ^ 4) :
    (choice count).Reads (leBytes 4 index) index := by
  have hread := reads_nat (n := 4) (Nat.lt_of_lt_of_le h hc)
  apply hread.bind_nil
  rw [if_pos h]
  exact .pure index

theorem reads_option_none (r : Reader α) : (option r).Reads [0] none :=
  (reads_byte 0).bind_nil (.pure none)

theorem reads_option_some {r : Reader α} {bs : Bytes} {a : α} (h : r.Reads bs a) :
    (option r).Reads (1 :: bs) (some a) :=
  (reads_byte 1).bind h.map

theorem reads_replicate {r : Reader α} {encode : α → Bytes} {as : List α}
    (h : ∀ a ∈ as, r.Reads (encode a) a) : (replicate r as.length).Reads (as.flatMap encode) as := by
  induction as with
  | nil => exact .pure []
  | cons a as ih =>
    obtain ⟨ha, has⟩ := List.forall_mem_cons.1 h
    exact ha.bind (ih has).map

theorem reads_list {r : Reader α} {encode : α → Bytes} {as : List α}
    (h : ∀ a ∈ as, r.Reads (encode a) a) (hlen : as.length < 256 ^ 8) :
    (list r).Reads (leBytes 8 as.length ++ as.flatMap encode) as :=
  (reads_nat hlen).bind (reads_replicate h)

theorem reads_text {cs : List Char} (h : ∀ c ∈ cs, c.toNat < 0x80) (hlen : cs.length < 256 ^ 8) :
    text.Reads (leBytes 8 cs.length ++ Utf8.encode cs) cs := by
  have hsize := Utf8.length_encode_ascii h
  have hbody : Reads (fun bs => if bs.length < cs.length then .error .textPastEnd
      else take cs.length bs) (Utf8.encode cs) (Utf8.encode cs) := by
    intro rest
    have hle : ¬(Utf8.encode cs ++ rest).length < cs.length := by
      rw [List.length_append, hsize]
      omega
    have htake := reads_take (Utf8.encode cs)
    rw [hsize] at htake
    simp only [if_neg hle, htake rest]
  refine (reads_nat hlen).bind (hbody.bind_nil ?_)
  rw [Utf8.decode_encode cs]
  exact .pure cs

end Reader

end Binary

open Binary Binary.Reader

/-- Every value is read back from its binary form, whatever comes after it. -/
class LawfulBinaryForm (α : Type) [BinaryForm α] : Prop where
  reads : ∀ a : α, (BinaryForm.reader : Reader α).Reads (Binary.encode a) a

namespace LawfulBinaryForm

variable {α β : Type} [BinaryForm α] [BinaryForm β]

theorem decode_append [LawfulBinaryForm α] (a : α) (rest : Bytes) :
    Binary.decode (Binary.encode a ++ rest) = .ok a := by
  rw [Binary.decode, reads a rest]
  rfl

theorem decode_encode [LawfulBinaryForm α] (a : α) :
    Binary.decode (Binary.encode a) = .ok a := by
  have h := decode_append a []
  rwa [List.append_nil] at h

instance {n : Nat} : LawfulBinaryForm (Block n) := ⟨reads_block⟩

instance : LawfulBinaryForm UInt64 where
  reads n := by
    have h := (reads_nat (n := 8) n.toNat_lt).map (f := UInt64.ofNat)
    rwa [UInt64.ofNat_toNat] at h

instance : LawfulBinaryForm Bool where
  reads b := by
    cases b with
    | false => exact (reads_byte 0).bind_nil (.pure false)
    | true => exact (reads_byte 1).bind_nil (.pure true)

instance [LawfulBinaryForm α] : LawfulBinaryForm (Option α) where
  reads a := by
    cases a with
    | none => exact reads_option_none _
    | some a => exact reads_option_some (reads a)

instance [LawfulBinaryForm α] [LawfulBinaryForm β] : LawfulBinaryForm (α × β) where
  reads p := (reads p.1).bind (reads p.2).map

theorem ofParts?_parts (d : Duration) : Duration.ofParts? d.secs.toNat d.nanos = some d := by
  obtain ⟨secs, nanos, hnanos⟩ := d
  have hsecs := secs.toNat_lt_size
  have hdiv : nanos / 1000000000 = 0 := Nat.div_eq_of_lt hnanos
  have hmod : nanos % 1000000000 = nanos := Nat.mod_eq_of_lt hnanos
  have hfits : secs.toNat + nanos / 1000000000 < UInt64.size := by omega
  rw [Duration.ofParts?, if_pos hfits]
  simp [hdiv, hmod]

instance : LawfulBinaryForm Duration where
  reads d := by
    have hnanos := d.nanos_lt
    have hsecs := reads_nat (n := 8) d.secs.toNat_lt
    refine hsecs.bind ((reads_nat (n := 4) (k := d.nanos) (by omega)).bind_nil ?_)
    rw [ofParts?_parts]
    exact .pure d

theorem reads_twoWay {γ : Type} [DecidableEq γ] {c : Choice γ}
    (hall : ∀ a, a = c.first ∨ a = c.second) (a : γ) : c.reader.Reads (c.encode a) a := by
  unfold Choice.encode Choice.reader
  split
  · next h =>
    subst h
    exact (reads_choice (by decide) (by decide)).bind_nil (.pure _)
  · next h =>
    obtain rfl := (hall a).resolve_left h
    exact (reads_choice (by decide) (by decide)).bind_nil (.pure _)

instance : LawfulBinaryForm CommitmentScheme := ⟨reads_twoWay fun a => by cases a <;> decide⟩

instance : LawfulBinaryForm LabelScheme := ⟨reads_twoWay fun a => by cases a <;> decide⟩

instance : LawfulBinaryForm QueryMode := ⟨reads_twoWay fun a => by cases a <;> decide⟩

instance : LawfulBinaryForm FailurePolicy := ⟨reads_twoWay fun a => by cases a <;> decide⟩

theorem reads_seedText (seed : Option Seed) : SeedText.reader.Reads (SeedText.encode seed) seed := by
  cases seed with
  | none => exact (reads_option_none _).bind_nil (.pure none)
  | some seed =>
    have hlen : (SeedText.write seed).length < 256 ^ 8 := by
      rw [SeedText.write, Hex.length_chars, seed.length_eq]
      decide
    have htext := reads_option_some (reads_text (Hex.chars_ascii seed.bytes) hlen)
    have hread : SeedText.read (Hex.chars seed.bytes) = .ok seed := SeedText.read_write seed
    apply htext.bind_nil
    simp only [hread]
    exact .pure _

instance : LawfulBinaryForm Config where
  reads c := by
    have hencode : Binary.encode c = Binary.encode c.commitmentScheme ++ (Binary.encode c.labelScheme
        ++ (Binary.encode c.queryMode ++ (SeedText.encode c.labelSeed
        ++ (Binary.encode c.labelCacheSize ++ (Binary.encode c.threadCount
        ++ (Binary.encode c.querierPoolSize ++ (Binary.encode c.commitInterval
        ++ Binary.encode c.onApplyFailure))))))) := by
      simp only [← List.append_assoc]
      rfl
    rw [hencode]
    apply (reads c.commitmentScheme).bind
    apply (reads c.labelScheme).bind
    apply (reads c.queryMode).bind
    apply (reads_seedText c.labelSeed).bind
    apply (reads c.labelCacheSize).bind
    apply (reads c.threadCount).bind
    apply (reads c.querierPoolSize).bind
    apply (reads c.commitInterval).bind
    exact (reads c.onApplyFailure).map

end LawfulBinaryForm

end AuthDict

import AuthDict.Proofs.Trie.History

/-!
# Storing a trie leaves no trace

Only the epoch, the root and the leaves of a trie are written; the kept digests are computed again
when it is read. However a trie came about, it is read back as it was, in all four parts, and bytes
that come after it do not matter. So a trie that is stored and read again between its requests, at
any places, gives the replies that it gives without.
-/
namespace AuthDict.Trie

open Binary

inductive Request where
  | batch (updates : List Update)
  | lookup (label : Label)

inductive Reply where
  | batch (proofs : List AppendProof) (root : Digest)
  | lookup (path : LookupPath)
deriving DecidableEq

/-- The reply to a request, and the trie after it. -/
def answer (t : Trie) : Request → Reply × Trie
  | .batch us => (.batch (t.applyBatch us).2 (t.applyBatch us).1.root, (t.applyBatch us).1)
  | .lookup label => (.lookup (t.lookup label), t)

/-- The replies to requests in order, and the trie after the last. -/
def answers : List Request → Trie → List Reply × Trie
  | [], t => ([], t)
  | request :: requests, t =>
    let rest := answers requests (t.answer request).2
    ((t.answer request).1 :: rest.1, rest.2)

inductive Step where
  | ask (request : Request)
  /-- The trie is stored, and what is read from its bytes with others after them takes its place. -/
  | reload (tail : Bytes)

def Step.request? : Step → Option Request
  | ask request => some request
  | reload _ => none

/-- The replies to the requests among some steps. -/
def answersReloading : List Step → Trie → Except Fault (List Reply × Trie)
  | [], t => .ok ([], t)
  | .ask request :: steps, t =>
    (answersReloading steps (t.answer request).2).map fun rest =>
      ((t.answer request).1 :: rest.1, rest.2)
  | .reload tail :: steps, t =>
    match decode (encode t ++ tail) with
    | .ok next => answersReloading steps next
    | .error fault => .error fault

/-- Where the trie is stored, its leaves can be counted in eight bytes. -/
def StoredWithin : List Step → Trie → Prop
  | [], _ => True
  | .ask request :: steps, t => StoredWithin steps (t.answer request).2
  | .reload _ :: steps, t => t.size < 2 ^ 64 ∧ StoredWithin steps t

variable {t : Trie}

theorem Coherent.answer (h : Coherent t) (request : Request) : Coherent (t.answer request).2 := by
  cases request with
  | batch us => exact h.applyBatch us
  | lookup label => exact h

theorem Coherent.answersReloading_eq (h : Coherent t) {steps : List Step}
    (hsteps : StoredWithin steps t) :
    answersReloading steps t = .ok (answers (steps.filterMap Step.request?) t) := by
  induction steps generalizing t with
  | nil => rfl
  | cons step steps ih =>
    cases step with
    | ask request =>
      have hrest := ih (h.answer request) hsteps
      rw [answersReloading, hrest]
      rfl
    | reload tail =>
      -- What is read is the trie itself, so the remaining steps start from it as before.
      obtain ⟨hsize, hsteps⟩ := hsteps
      have hrest := ih h hsteps
      simp only [answersReloading, h.decode_append hsize]
      exact hrest

namespace Obtained

variable {ws : List (Label × Commitment)}

/-- A trie is read back from its bytes as it was, whatever comes after them, and reloads between
requests fail nowhere and change neither a reply nor the trie at the end. -/
theorem reload_unseen (h : Obtained ws t) :
    (t.size < 2 ^ 64 → ∀ tail, decode (encode t ++ tail) = .ok t) ∧
      ∀ steps, StoredWithin steps t →
        answersReloading steps t = .ok (answers (steps.filterMap Step.request?) t) := by
  constructor
  · intro hsize tail
    exact h.coherent.decode_append hsize tail
  · intro steps hsteps
    exact h.coherent.answersReloading_eq hsteps

/-- A lookup after a batch, with a reload before each of them. -/
def sampleSteps : List Step :=
  [.reload [7], .ask (.batch sampleBatch), .reload [], .ask (.lookup (Block.zero 32))]

theorem reload_unseen_sampleSteps :
    Obtained (writtenLeaves sampleBytes) sampleRead ∧ sampleRead.size < 2 ^ 64 ∧
      decode (encode sampleRead ++ [7]) = .ok sampleRead ∧ StoredWithin sampleSteps sampleRead ∧
      answersReloading sampleSteps sampleRead =
        .ok (answers [.batch sampleBatch, .lookup (Block.zero 32)] sampleRead) := by
  have hsize : sampleRead.size < 2 ^ 64 := by decide +kernel
  have hnext : (sampleRead.applyBatch sampleBatch).1.size < 2 ^ 64 := by decide +kernel
  have hsteps : StoredWithin sampleSteps sampleRead := by
    simp only [sampleSteps, StoredWithin]
    exact ⟨hsize, hnext, trivial⟩
  obtain ⟨hread, hreplies⟩ := reload_unseen obtained_sampleRead
  exact ⟨obtained_sampleRead, hsize, hread hsize [7], hsteps, hreplies sampleSteps hsteps⟩

end Obtained

end AuthDict.Trie

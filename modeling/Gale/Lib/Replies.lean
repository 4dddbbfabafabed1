import Mathlib

namespace Gale.Lib

section Replies

variable {σ τ ι ο : Type*} (call : σ → ι → ο × σ)

-- What a component answers to a list of calls, and the state it is in afterwards.
def replies : σ → List ι → List ο × σ
  | state, [] => ([], state)
  | state, input :: rest =>
    let (reply, next) := call state input
    let (others, final) := replies next rest
    (reply :: others, final)

variable {call}

@[simp] theorem replies_nil (st : σ) : replies call st [] = ([], st) := rfl

theorem replies_cons (st : σ) (a : ι) (rest : List ι) : replies call st (a :: rest) =
      ((call st a).1 :: (replies call (call st a).2 rest).1, (replies call (call st a).2 rest).2) := rfl

theorem replies_refine {spec : τ → ι → ο × τ} {rel : σ → τ → Prop} {ins : List ι}
    (hs : ∀ st abstract, ∀ a ∈ ins, rel st abstract →
      (call st a).1 = (spec abstract a).1 ∧ rel (call st a).2 (spec abstract a).2)
    {st : σ} {abstract : τ} (h : rel st abstract) :
    (replies call st ins).1 = (replies spec abstract ins).1 ∧
      rel (replies call st ins).2 (replies spec abstract ins).2 := by
  induction ins generalizing st abstract with
  | nil => exact ⟨rfl, h⟩
  | cons a rest ih =>
    obtain ⟨hr, hn⟩ := hs st abstract a List.mem_cons_self h
    obtain ⟨hrs, hf⟩ := ih
      (fun st abstract a hm => hs st abstract a (List.mem_cons_of_mem _ hm))
      hn
    rw [replies_cons, replies_cons, hr, hrs]
    exact ⟨rfl, hf⟩

end Replies

end Gale.Lib

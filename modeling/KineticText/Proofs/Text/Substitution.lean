import Mathlib.Data.List.Basic

/-!
# Characters replaced by texts

`substitute` writes a text for each character of a text; which one may depend
on the place of the character.  What it makes of a text is what it makes of a
front part and of the rest (`substitute_append`), so that a substitution can be
followed from the front.
-/

namespace KineticText.Text

/-- Each character replaced by a text, which may depend on its place. -/
def substitute (f : ℕ → Char → List Char) (s : List Char) : List Char := (s.mapIdx f).flatten

variable {f g : ℕ → Char → List Char} {c : Char} {s : List Char}

@[simp] theorem substitute_nil : substitute f [] = [] := rfl

theorem substitute_append (front rest : List Char) :
    substitute f (front ++ rest) =
      substitute f front ++ substitute (fun k => f (front.length + k)) rest := by
  simp only [substitute, List.mapIdx_append, List.flatten_append, Nat.add_comm]

theorem substitute_cons : substitute f (c :: s) = f 0 c ++ substitute (fun k => f (1 + k)) s := by
  rw [← List.singleton_append, substitute_append]
  simp [substitute]

theorem mem_substitute_iff {d : Char} :
    d ∈ substitute f s ↔ ∃ k c, s[k]? = some c ∧ d ∈ f k c := by
  simp only [substitute, List.mem_flatten, List.mem_mapIdx]
  constructor
  · intro h
    obtain ⟨-, ⟨k, hk, rfl⟩, hd⟩ := h
    exact ⟨k, _, List.getElem?_eq_getElem hk, hd⟩
  · intro h
    obtain ⟨k, c, hc, hd⟩ := h
    obtain ⟨hk, rfl⟩ := List.getElem?_eq_some_iff.1 hc
    exact ⟨_, ⟨k, hk, rfl⟩, hd⟩

/-- What stands at the places of the text decides. -/
theorem substitute_congr (h : ∀ k c, s[k]? = some c → f k c = g k c) :
    substitute f s = substitute g s := by
  rw [substitute, substitute, List.mapIdx_eq_mapIdx_iff.2]
  intro k hk
  exact h k _ (List.getElem?_eq_getElem hk)

theorem substitute_eq_self (h : ∀ k c, s[k]? = some c → f k c = [c]) : substitute f s = s := by
  rw [substitute_congr h]
  clear h
  induction s with
  | nil => rfl
  | cons c s ih => rw [substitute_cons, ih, List.singleton_append]

theorem substitute_eq_nil (h : ∀ k c, s[k]? = some c → f k c = []) : substitute f s = [] := by
  rw [substitute_congr h]
  clear h
  induction s with
  | nil => rfl
  | cons c s ih => rw [substitute_cons, ih, List.nil_append]

end KineticText.Text

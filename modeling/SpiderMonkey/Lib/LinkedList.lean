import Mathlib.Tactic

/-!
# Lists that are linked through their elements

An element holds the one that follows it, so an element is in one list at a time.  `IsList next p l`
says that the list that starts at `p` has the elements `l`, and `BeginsWith next p l` that these are its first
elements, whatever follows them.
-/

variable {N : Type*}

def IsList (next : N → Option N) : Option N → List N → Prop
  | p, [] => p = none
  | p, x :: l => p = some x ∧ IsList next (next x) l

namespace IsList

variable {next next' : N → Option N} {p : Option N} {x : N} {l l' : List N}

lemma head_eq (h : IsList next p l) : p = l.head? := by
  cases l with
  | nil => exact h
  | cons y l => exact h.1

lemma congr (h : IsList next p l) (heq : ∀ x ∈ l, next' x = next x) : IsList next' p l := by
  induction l generalizing p with
  | nil => exact h
  | cons y l ih =>
    refine ⟨h.1, ?_⟩
    rw [heq y List.mem_cons_self]
    exact ih h.2 fun x hx => heq x (List.mem_cons_of_mem _ hx)

lemma push [DecidableEq N] (h : IsList next p l) (hx : x ∉ l) :
    IsList (Function.update next x p) (some x) (x :: l) := by
  refine ⟨rfl, ?_⟩
  rw [Function.update_self]
  refine h.congr fun y hy => Function.update_of_ne ?_ _ _
  rintro rfl
  exact hx hy

lemma update [DecidableEq N] (h : IsList next p l) (hx : x ∉ l) (q : Option N) :
    IsList (Function.update next x q) p l := by
  refine h.congr fun y hy => Function.update_of_ne ?_ _ _
  rintro rfl
  exact hx hy

end IsList

/-! ## The first elements of a list -/

def BeginsWith (next : N → Option N) : Option N → List N → Prop
  | _, [] => True
  | p, x :: l => p = some x ∧ BeginsWith next (next x) l

def nodesFrom (next : N → Option N) : ℕ → Option N → List N
  | 0, _ => []
  | _ + 1, none => []
  | n + 1, some x => x :: nodesFrom next n (next x)

namespace BeginsWith

variable {next next' : N → Option N} {p : Option N} {x : N} {l l' : List N}

lemma congr (h : BeginsWith next p l) (heq : ∀ x ∈ l, next' x = next x) : BeginsWith next' p l := by
  induction l generalizing p with
  | nil => exact trivial
  | cons y l ih =>
    refine ⟨h.1, ?_⟩
    rw [heq y List.mem_cons_self]
    exact ih h.2 fun x hx => heq x (List.mem_cons_of_mem _ hx)

lemma left (h : BeginsWith next p (l ++ l')) : BeginsWith next p l := by
  induction l generalizing p with
  | nil => exact trivial
  | cons y l ih => exact ⟨h.1, ih h.2⟩

lemma push (h : BeginsWith next p l) (hx : next' x = p) (heq : ∀ y ∈ l, next' y = next y) :
    BeginsWith next' (some x) (x :: l) := ⟨rfl, hx ▸ h.congr heq⟩

lemma nodesFrom_eq (h : BeginsWith next p l) : nodesFrom next l.length p = l := by
  induction l generalizing p with
  | nil => rfl
  | cons y l ih =>
    obtain ⟨rfl, h⟩ := h
    simp [nodesFrom, ih h]

end BeginsWith

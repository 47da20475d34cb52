import Mathlib.Data.List.Infix

/-!
# SQL `LIKE`

`like pattern text` decides `text LIKE pattern` with the default escape: `%`
matches any run of characters, `_` one character, a backslash makes the next
pattern character literal.
-/

namespace Sql

/-- A `LIKE` pattern after its escapes are read. -/
inductive Tok
  | many | one | lit (c : Char)

def tokens : List Char → List Tok
  | [] => []
  | ['\\'] => [.lit '\\']
  | '\\' :: c :: p => .lit c :: tokens p
  | c :: p => (if c = '%' then .many else if c = '_' then .one else .lit c) :: tokens p

def matchToks : List Tok → List Char → Bool
  | [], t => t.isEmpty
  | .many :: p, t => t.tails.any fun s => matchToks p s
  | .one :: p, t => t.casesOn false fun _ t' => matchToks p t'
  | .lit c :: p, t => t.casesOn false fun d t' => c == d && matchToks p t'

def like (pattern text : List Char) : Bool :=
  matchToks (tokens pattern) text

/-- A character that stands for itself in a pattern. -/
def plain (c : Char) : Bool := c != '%' && c != '_' && c != '\\'

theorem tokens_cons_plain {c : Char} (hc : plain c = true) (p : List Char) :
    tokens (c :: p) = .lit c :: tokens p := by
  simp only [plain, Bool.and_eq_true, bne_iff_ne, ne_eq] at hc
  obtain ⟨⟨h₁, h₂⟩, h₃⟩ := hc
  rw [tokens, if_neg h₁, if_neg h₂]
  · intro h
    exact absurd h h₃
  · intro _ _ h
    exact absurd h h₃

theorem like_cons_plain {c : Char} (hc : plain c = true) (p t : List Char) :
    like (c :: p) t = true ↔ ∃ t', t = c :: t' ∧ like p t' = true := by
  unfold like
  rw [tokens_cons_plain hc]
  cases t with
  | nil => simp [matchToks]
  | cons d t' =>
    simp only [matchToks, Bool.and_eq_true, beq_iff_eq, List.cons.injEq]
    constructor
    · rintro ⟨rfl, h⟩
      exact ⟨t', ⟨rfl, rfl⟩, h⟩
    · rintro ⟨_, ⟨rfl, rfl⟩, h⟩
      exact ⟨rfl, h⟩

@[simp] theorem like_percent (t : List Char) : like ['%'] t = true := by
  show (t.tails.any fun s => s.isEmpty) = true
  rw [List.any_eq_true]
  exact ⟨[], (List.mem_tails _ _).mpr List.nil_suffix, rfl⟩

/-- A literal prefix of a pattern is a prefix of the text. -/
theorem like_append_plain {l : List Char} (hl : l.all plain = true) (p t : List Char) :
    like (l ++ p) t = true ↔ ∃ t', t = l ++ t' ∧ like p t' = true := by
  induction l generalizing t with
  | nil => simp
  | cons c l ih =>
    rw [List.all_cons, Bool.and_eq_true] at hl
    rw [List.cons_append, like_cons_plain hl.1]
    constructor
    · rintro ⟨t', rfl, h⟩
      obtain ⟨t'', rfl, h'⟩ := (ih hl.2 t').mp h
      exact ⟨t'', rfl, h'⟩
    · rintro ⟨t', rfl, h⟩
      exact ⟨l ++ t', rfl, (ih hl.2 _).mpr ⟨t', rfl, h⟩⟩

end Sql

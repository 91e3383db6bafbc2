import Mathlib.Data.List.Infix

namespace Omission.Lib
set_option autoImplicit true

/-- Regular expressions, as far as alternations of literals need them. -/
inductive Regex where
  | eps
  | char (c : Char)
  | seq (r s : Regex)
  | alt (r s : Regex)
deriving DecidableEq, Repr

namespace Regex

def Matches : Regex → List Char → Prop
  | eps, t => t = []
  | char c, t => t = [c]
  | seq r s, t => ∃ u v, t = u ++ v ∧ r.Matches u ∧ s.Matches v
  | alt r s, t => r.Matches t ∨ s.Matches t

/-- The unanchored search: some part of the text matches. -/
def Search (r : Regex) (t : List Char) : Prop := ∃ m, m <:+: t ∧ r.Matches m

/-- The rest of a pattern text, behind a literal that has been read. -/
def parse (r : Regex) : List Char → Regex
  | [] => r
  | c :: p => if c = '|' then alt r (parse eps p) else parse (seq r (char c)) p

/-- The expression of a pattern text whose only operator is `|`. -/
def ofPattern (p : List Char) : Regex := parse eps p

def literals (cur : List Char) : List Char → List (List Char)
  | [] => [cur]
  | c :: p => if c = '|' then cur :: literals [] p else literals (cur ++ [c]) p

def alternatives (p : List Char) : List (List Char) := literals [] p

theorem parse_matches {r : Regex} {cur p : List Char} (h : ∀ t, r.Matches t ↔ t = cur)
    (t : List Char) : (parse r p).Matches t ↔ t ∈ literals cur p := by
  induction p generalizing r cur with
  | nil => exact (h t).trans List.mem_singleton.symm
  | cons c p ih =>
    rw [parse, literals]
    split
    · rw [Matches, h t, List.mem_cons, ih fun u => Iff.rfl]
    · apply ih
      intro u
      constructor
      · rintro ⟨v, w, rfl, hv, rfl⟩
        rw [(h v).1 hv]
      · rintro rfl
        exact ⟨cur, [c], rfl, (h cur).2 rfl, rfl⟩

theorem search_ofPattern (p t : List Char) :
    (ofPattern p).Search t ↔ ∃ a ∈ alternatives p, a <:+: t := by
  have hmatches : ∀ m, (ofPattern p).Matches m ↔ m ∈ alternatives p :=
    parse_matches fun u => Iff.rfl
  constructor
  · rintro ⟨m, hm, hr⟩
    exact ⟨m, (hmatches m).1 hr, hm⟩
  · rintro ⟨a, ha, hat⟩
    exact ⟨a, hat, (hmatches a).2 ha⟩

instance (p t : List Char) : Decidable ((ofPattern p).Search t) :=
  decidable_of_iff _ (search_ofPattern p t).symm

end Regex

end Omission.Lib

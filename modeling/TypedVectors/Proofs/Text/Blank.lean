import Mathlib.Data.List.TakeWhile
import TypedVectors.Text.Blank

/-!
The blanks by their code points, and what lies between the blanks at both ends of a text. There is
exactly one such middle, and `trim` returns it.
-/
namespace TypedVectors.Text

/-- The code points of white space. -/
def whiteSpace : List ℕ :=
  [0x9, 0xb, 0xc, 0x20, 0xa0, 0x1680, 0x2000, 0x2001, 0x2002, 0x2003, 0x2004, 0x2005, 0x2006,
    0x2007, 0x2008, 0x2009, 0x200a, 0x202f, 0x205f, 0x3000, 0xfeff]

/-- The code points of line ends. -/
def lineEnds : List ℕ := [0xa, 0xd, 0x2028, 0x2029]

def Blank (c : Char) : Prop := c.toNat ∈ whiteSpace ++ lineEnds

theorem isBlank_iff {c : Char} : isBlank c ↔ Blank c := by
  simp only [isBlank, blankRanges, Blank, whiteSpace, lineEnds, List.any_cons, List.any_nil,
    Bool.or_eq_true, Bool.and_eq_true, decide_eq_true_iff, Bool.false_eq_true, List.mem_append,
    List.mem_cons, List.not_mem_nil, or_false]
  omega

/-- The middle of a text, between the blanks at both ends. -/
structure Trimmed (cs body : List Char) : Prop where
  around : ∃ front back, cs = front ++ (body ++ back) ∧
    (∀ c ∈ front, Blank c) ∧ ∀ c ∈ back, Blank c
  first : ∀ c ∈ body.head?, ¬Blank c
  last : ∀ c ∈ body.getLast?, ¬Blank c

theorem dropBlanks_eq {front rest : List Char} (blank : ∀ c ∈ front, Blank c)
    (stop : ∀ c ∈ rest.head?, ¬Blank c) : (front ++ rest).dropWhile isBlank = rest := by
  rw [List.dropWhile_append_of_pos fun c inside => isBlank_iff.2 (blank c inside)]
  cases rest with
  | nil => rfl
  | cons c rest => exact List.dropWhile_cons_of_neg (mt isBlank_iff.1 (stop c rfl))

theorem head?_dropBlanks (cs : List Char) : ∀ c ∈ (cs.dropWhile isBlank).head?, ¬Blank c := by
  intro c first blank
  have stop := List.head?_dropWhile_not isBlank cs
  rw [Option.mem_def.1 first] at stop
  exact Bool.false_ne_true (stop.symm.trans (isBlank_iff.2 blank))

theorem takeBlanks (cs : List Char) : ∀ c ∈ cs.takeWhile isBlank, Blank c :=
  fun c inside => isBlank_iff.1 (List.all_eq_true.1 List.all_takeWhile c inside)

theorem trimmed_trim (cs : List Char) : Trimmed cs (trim cs) := by
  have start := List.takeWhile_append_dropWhile (p := isBlank) (l := cs)
  have stop := List.takeWhile_append_dropWhile (p := isBlank) (l := (cs.dropWhile isBlank).reverse)
  have rest : cs.dropWhile isBlank =
      trim cs ++ ((cs.dropWhile isBlank).reverse.takeWhile isBlank).reverse := by
    rw [trim, ← List.reverse_append, stop, List.reverse_reverse]
  refine ⟨⟨_, _, start.symm.trans (congrArg _ rest), takeBlanks cs, fun c inside =>
    takeBlanks _ c (List.mem_reverse.1 inside)⟩, fun c first => ?_, fun c last => ?_⟩
  · refine head?_dropBlanks cs c ?_
    rw [rest, List.head?_append, Option.mem_def.1 first]
    rfl
  · rw [trim, List.getLast?_reverse] at last
    exact head?_dropBlanks _ c last

theorem trim_eq {cs body : List Char} (trimmed : Trimmed cs body) : trim cs = body := by
  obtain ⟨⟨front, back, rfl, before, after⟩, first, last⟩ := trimmed
  cases body with
  | nil =>
    have nothing : (front ++ ([] ++ back)).dropWhile isBlank = [] :=
      List.dropWhile_eq_nil_iff.2 fun c inside =>
        isBlank_iff.2 ((List.mem_append.1 inside).elim (before c) (after c))
    rw [trim, nothing]
    rfl
  | cons c rest =>
    rw [trim, dropBlanks_eq before (by simpa using first), List.reverse_append,
      dropBlanks_eq fun c inside => after c (List.mem_reverse.1 inside), List.reverse_reverse]
    rwa [List.head?_reverse]

theorem trimmed_iff {cs body : List Char} : Trimmed cs body ↔ body = trim cs :=
  ⟨fun trimmed => (trim_eq trimmed).symm, fun same => same ▸ trimmed_trim cs⟩

end TypedVectors.Text

/-!
# Text/Lines — line breaks

Files may end their lines in three ways; a text as it is read has only the plain one.
-/

namespace Taskboard

/-- Line breaks of all kinds as plain ones: a carriage return counts as a break, together with a
line feed behind it. -/
def plainBreaks : List Char → List Char
  | [] => []
  | '\r' :: '\n' :: cs => '\n' :: plainBreaks cs
  | c :: cs => (if c = '\r' then '\n' else c) :: plainBreaks cs

/-- No carriage return is left. -/
theorem not_mem_plainBreaks (cs : List Char) : '\r' ∉ plainBreaks cs := by
  fun_induction plainBreaks cs with
  | case1 => simp
  | case2 cs ih => simpa using ih
  | case3 c cs _ ih => by_cases h : c = '\r' <;> simp_all [eq_comm]

/-- A text without carriage returns stays as it is. -/
theorem plainBreaks_eq_self {cs : List Char} (h : '\r' ∉ cs) : plainBreaks cs = cs := by
  fun_induction plainBreaks cs with
  | case1 => rfl
  | case2 => simp at h
  | case3 c cs _ ih =>
    have hc : c ≠ '\r' := fun e => h (e ▸ List.mem_cons_self)
    rw [if_neg hc, ih fun m => h (List.mem_cons_of_mem _ m)]

end Taskboard

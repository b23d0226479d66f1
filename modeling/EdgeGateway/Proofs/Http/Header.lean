import EdgeGateway.Http.Message

/-! # Headers as maps from names to values

Headers are looked at through the values of each name only: the first value, the question whether
there is one, and what each change does are all determined by them. Two headers with the same
values are alike (`Alike`), and changes keep them so. -/

namespace EdgeGateway.Http.Headers

/-! ### Values after a change -/

theorem values_append (h : Headers) (n m : String) (v : HeaderValue) :
    (h.append n v).values m = if m = n then h.values m ++ [v] else h.values m := by
  rw [append, values, values, List.filter_append]
  split
  next hm => simp [hm]
  next hm => simp [Ne.symm hm]

theorem values_remove (h : Headers) (n m : String) :
    (h.remove n).values m = if m = n then [] else h.values m := by
  rw [remove, values, values, List.filter_filter]
  split
  next hm => simp [hm]
  next hm =>
    congr 1
    refine List.filter_congr fun f _ => ?_
    by_cases hf : f.1 = m
    · simp [hf, hm]
    · simp [hf]

theorem values_set (h : Headers) (n m : String) (v : HeaderValue) :
    (h.set n v).values m = if m = n then [v] else h.values m := by
  rw [set, values_append, values_remove]
  split
  next => rfl
  next => rfl

/-- What a name has after a text was set under it: the text, or what it had if the text cannot be
a value. -/
theorem values_setText (h : Headers) (n m : String) (s : List Char) :
    (h.setText n s).values m =
      if m = n then ((HeaderValue.ofText? (sanitize s)).map ([·])).getD (h.values m)
      else h.values m := by
  rw [setText]
  split
  next v hv => simp [values_set, hv]
  next hv => simp [hv]

theorem values_setText_of_ne (h : Headers) {n m : String} (hm : m ≠ n) (s : List Char) :
    (h.setText n s).values m = h.values m := by
  rw [values_setText, if_neg hm]

/-! ### What values determine -/

theorem first?_eq (h : Headers) (n : String) : h.first? n = (h.values n).head? := by
  rw [first?, values]
  induction h.fields with
  | nil => rfl
  | cons f fields ih =>
    obtain ⟨k, v⟩ := f
    by_cases hk : k = n
    · simp [hk]
    · simp [hk, List.lookup_cons, beq_eq_false_iff_ne.2 (Ne.symm hk), ih]

theorem contains_eq (h : Headers) (n : String) : h.contains n = !(h.values n).isEmpty := by
  rw [contains, values]
  induction h.fields with
  | nil => rfl
  | cons f fields ih =>
    by_cases hf : f.1 = n
    · simp [hf]
    · simp [hf, ih]

theorem text?_eq (h : Headers) (n : String) :
    h.text? n = (h.values n).head?.bind HeaderValue.text? := by
  rw [text?, first?_eq]

/-- The same values under every name. -/
def Alike (h₁ h₂ : Headers) : Prop := ∀ n, h₁.values n = h₂.values n

/-- The same values under every name but one. -/
def AlikeBut (name : String) (h₁ h₂ : Headers) : Prop := ∀ n, n ≠ name → h₁.values n = h₂.values n

variable {h₁ h₂ : Headers} {name : String}

theorem AlikeBut.text? (h : AlikeBut name h₁ h₂) {n : String} (hn : n ≠ name) :
    h₁.text? n = h₂.text? n := by
  rw [text?_eq, text?_eq, h n hn]

theorem Alike.text? (h : Alike h₁ h₂) (n : String) : h₁.text? n = h₂.text? n := by
  rw [text?_eq, text?_eq, h n]

theorem Alike.contains (h : Alike h₁ h₂) (n : String) : h₁.contains n = h₂.contains n := by
  rw [contains_eq, contains_eq, h n]

theorem Alike.setText (h : Alike h₁ h₂) (n : String) (s : List Char) :
    Alike (h₁.setText n s) (h₂.setText n s) := by
  intro m
  rw [values_setText, values_setText, h m]

end EdgeGateway.Http.Headers

namespace EdgeGateway.Http

/-- Requests that differ in the values of one header at most. -/
structure Request.AlikeBut (name : String) (r₁ r₂ : Request) : Prop where
  method : r₁.method = r₂.method
  uri : r₁.uri = r₂.uri
  body : r₁.body = r₂.body
  headers : r₁.headers.AlikeBut name r₂.headers

end EdgeGateway.Http

import Mathlib.Data.List.Basic

/-! Renderings that can be read back from the front of a text.

A rendering is `Readable` if its text, with anything behind it that may follow, says
what was rendered and where it ended. What may follow is a set of symbols `stop`, and
`Begins` bounds the symbols a rendering starts with; together they say which renderings
can be put next to one another, in front of a bracket, or behind an alternative. -/
namespace ExploreCpp

variable {ι α β : Type} {stop first : ι → Prop} {ok : α → Prop} {ok' : β → Prop}
  {render : α → List ι} {render' : β → List ι}

/-- The text is empty or starts with a stop symbol. -/
def Stops (stop : ι → Prop) (rest : List ι) : Prop := ∀ c ∈ rest.head?, stop c

def Readable (ok : α → Prop) (stop : ι → Prop) (render : α → List ι) : Prop :=
  ∀ a b rest rest', ok a → ok b → Stops stop rest → Stops stop rest' →
    render a ++ rest = render b ++ rest' → a = b ∧ rest = rest'

def Begins (first : ι → Prop) (render : α → List ι) : Prop :=
  ∀ a, ∃ c rest, render a = c :: rest ∧ first c

/-- The items one after the other, with `sep` in front of all but the first. -/
def separated (sep : List ι) : Bool → List (List ι) → List ι
  | _, [] => []
  | true, item :: items => item ++ separated sep false items
  | false, item :: items => sep ++ item ++ separated sep false items

theorem stops_nil : Stops stop [] := by
  intro c hc
  cases hc

theorem stops_cons {c : ι} {rest : List ι} (h : stop c) : Stops stop (c :: rest) := by
  intro d hd
  cases hd
  exact h

theorem Begins.mono {first' : ι → Prop} (h : Begins first render) (himp : ∀ c, first c → first' c) :
    Begins first' render := by
  intro a
  obtain ⟨c, rest, hr, hc⟩ := h a
  exact ⟨c, rest, hr, himp c hc⟩

theorem begins_cons {c : ι} {f : α → List ι} (h : first c) : Begins first fun a => c :: f a :=
  fun a => ⟨c, f a, rfl, h⟩

/-- What two renderings begin with tells them apart. -/
theorem Begins.ne {first' : ι → Prop} (h : Begins first render) (h' : Begins first' render')
    (hne : ∀ c, first c → ¬ first' c) (a : α) (b : β) {rest rest' : List ι} :
    render a ++ rest ≠ render' b ++ rest' := by
  intro he
  obtain ⟨c, r, hr, hc⟩ := h a
  obtain ⟨c', r', hr', hc'⟩ := h' b
  rw [hr, hr', List.cons_append, List.cons_append, List.cons.injEq] at he
  rw [he.1] at hc
  exact hne c' hc hc'

namespace Readable

/-- Two things with the same text are the same. -/
theorem injective (h : Readable ok stop render) {a b : α} (ha : ok a) (hb : ok b)
    (he : render a = render b) : a = b := by
  have hread := h a b [] [] ha hb stops_nil stops_nil (by rw [he])
  exact hread.1

/-- Texts over symbols that do not stop, as long as they can be. -/
theorem span {inside : ι → Prop} (hin : ∀ a, ok a → ∀ c ∈ render a, inside c)
    (hinj : ∀ a b, ok a → ok b → render a = render b → a = b) (hstop : ∀ c, stop c → ¬ inside c) :
    Readable ok stop render := by
  have hspan : ∀ {xs ys rest rest' : List ι}, (∀ c ∈ xs, inside c) → (∀ c ∈ ys, inside c) →
      Stops stop rest → Stops stop rest' → xs ++ rest = ys ++ rest' → xs = ys ∧ rest = rest' := by
    intro xs
    induction xs with
    | nil =>
      intro ys rest rest' _ hys hr _ he
      cases ys with
      | nil => exact ⟨rfl, he⟩
      | cons y ys =>
        rw [List.nil_append] at he
        rw [he] at hr
        exact absurd (hys y List.mem_cons_self) (hstop y (hr y rfl))
    | cons x xs ih =>
      intro ys rest rest' hxs hys hr hr' he
      cases ys with
      | nil =>
        rw [List.nil_append] at he
        rw [← he] at hr'
        exact absurd (hxs x List.mem_cons_self) (hstop x (hr' x rfl))
      | cons y ys =>
        rw [List.cons_append, List.cons_append, List.cons.injEq] at he
        obtain ⟨hxy, hrest⟩ := ih (fun c hc => hxs c (List.mem_cons_of_mem x hc))
          (fun c hc => hys c (List.mem_cons_of_mem y hc)) hr hr' he.2
        exact ⟨by rw [he.1, hxy], hrest⟩
  intro a b rest rest' ha hb hr hr' he
  obtain ⟨hab, hrest⟩ := hspan (hin a ha) (hin b hb) hr hr' he
  exact ⟨hinj a b ha hb hab, hrest⟩

/-- Texts without the symbol that closes them. -/
theorem quoted (quote : ι) : Readable (quote ∉ ·) stop fun text => text ++ [quote] := by
  intro xs
  induction xs with
  | nil =>
    intro ys rest rest' _ hys _ _ he
    cases ys with
    | nil => exact ⟨rfl, (List.cons.inj he).2⟩
    | cons y ys => exact absurd (List.mem_cons.mpr (.inl (List.cons.inj he).1)) hys
  | cons x xs ih =>
    intro ys rest rest' hxs hys hr hr' he
    cases ys with
    | nil => exact absurd (List.mem_cons.mpr (.inl (List.cons.inj he).1.symm)) hxs
    | cons y ys =>
      obtain ⟨hxy, htail⟩ := List.cons.inj he
      obtain ⟨htext, hrest⟩ := ih ys rest rest' (fun hm => hxs (List.mem_cons_of_mem x hm))
        (fun hm => hys (List.mem_cons_of_mem y hm)) hr hr' htail
      exact ⟨by rw [hxy, htext], hrest⟩

theorem after (lit : List ι) (h : Readable ok stop render) :
    Readable ok stop fun a => lit ++ render a := by
  intro a b rest rest' ha hb hr hr' he
  rw [List.append_assoc, List.append_assoc] at he
  exact h a b rest rest' ha hb hr hr' (List.append_cancel_left he)

/-- Closed by a stop symbol, a rendering may be followed by anything. -/
theorem closed {c : ι} {stop' : ι → Prop} (h : Readable ok stop render) (hc : stop c) :
    Readable ok stop' fun a => render a ++ [c] := by
  intro a b rest rest' ha hb _ _ he
  rw [List.append_assoc, List.append_assoc] at he
  obtain ⟨hab, hrest⟩ := h a b _ _ ha hb (stops_cons hc) (stops_cons hc) he
  exact ⟨hab, (List.cons.inj hrest).2⟩

theorem pair (h : Readable ok stop render) (h' : Readable ok' stop render')
    (hstop : ∀ b rest, Stops stop rest → Stops stop (render' b ++ rest)) :
    Readable (fun p => ok p.1 ∧ ok' p.2) stop fun p : α × β => render p.1 ++ render' p.2 := by
  intro a b rest rest' ha hb hr hr' he
  rw [List.append_assoc, List.append_assoc] at he
  obtain ⟨hfst, htail⟩ := h a.1 b.1 _ _ ha.1 hb.1 (hstop a.2 rest hr) (hstop b.2 rest' hr') he
  obtain ⟨hsnd, hrest⟩ := h' a.2 b.2 rest rest' ha.2 hb.2 hr hr' htail
  exact ⟨Prod.ext hfst hsnd, hrest⟩

/-- Alternatives that begin differently. -/
theorem sum {first' : ι → Prop} (h : Readable ok stop render) (h' : Readable ok' stop render')
    (hb : Begins first render) (hb' : Begins first' render') (hne : ∀ c, first c → ¬ first' c) :
    Readable (Sum.elim ok ok') stop (Sum.elim render render') := by
  intro a b rest rest' ha hok hr hr' he
  cases a with
  | inl a =>
    cases b with
    | inl b =>
      obtain ⟨hab, hrest⟩ := h a b rest rest' ha hok hr hr' he
      exact ⟨by rw [hab], hrest⟩
    | inr b => exact absurd he (hb.ne hb' hne a b)
  | inr a =>
    cases b with
    | inl b => exact absurd he.symm (hb.ne hb' hne b a)
    | inr b =>
      obtain ⟨hab, hrest⟩ := h' a b rest rest' ha hok hr hr' he
      exact ⟨by rw [hab], hrest⟩

theorem begins_ne {close : ι} (hb : Begins first render) (hfirst : ¬ first close) (a : α)
    (text rest : List ι) : render a ++ text ≠ close :: rest := by
  intro he
  obtain ⟨c, r, hr, hc⟩ := hb a
  rw [hr] at he
  rw [(List.cons.inj he).1] at hc
  exact hfirst hc

/-- A text of its own for what is not there. -/
theorem option {c : ι} {lit : List ι} (h : Readable ok stop render) (hb : Begins first render)
    (hc : ¬ first c) :
    Readable (fun o : Option α => ∀ a ∈ o, ok a) stop fun o => (o.map render).getD (c :: lit) := by
  have hne : ∀ (a : α) (rest rest' : List ι), render a ++ rest ≠ c :: lit ++ rest' :=
    fun a rest rest' => begins_ne hb hc a rest (lit ++ rest')
  intro o o' rest rest' ho ho' hr hr' he
  cases o with
  | none =>
    cases o' with
    | none => exact ⟨rfl, List.append_cancel_left he⟩
    | some b => exact absurd he.symm (hne b rest' rest)
  | some a =>
    cases o' with
    | none => exact absurd he (hne a rest rest')
    | some b =>
      obtain ⟨hab, hrest⟩ := h a b rest rest' (ho a rfl) (ho' b rfl) hr hr' he
      exact ⟨by rw [hab], hrest⟩

/-- Between two items and behind the last one stands a stop symbol. -/
theorem separated_stops {sep : List ι} {comma close : ι} (hcomma : stop comma) (hclose : stop close)
    (items : List (List ι)) (rest : List ι) :
    Stops stop (separated (comma :: sep) false items ++ close :: rest) := by
  cases items with
  | nil => exact stops_cons hclose
  | cons item items => exact stops_cons hcomma

/-- The first item of several is read, whatever stands behind it. -/
theorem separated_item {sep : List ι} {comma close : ι} (h : Readable ok stop render) (hcomma : stop comma)
    (hclose : stop close) {a b : α} {items items' : List (List ι)} {rest rest' : List ι} (ha : ok a)
    (hb : ok b)
    (he : render a ++ (separated (comma :: sep) false items ++ close :: rest) =
      render b ++ (separated (comma :: sep) false items' ++ close :: rest')) :
    a = b ∧ separated (comma :: sep) false items ++ close :: rest =
      separated (comma :: sep) false items' ++ close :: rest' :=
  h _ _ _ _ ha hb (separated_stops hcomma hclose _ _) (separated_stops hcomma hclose _ _) he

/-- The items after the first, each behind a separator. -/
theorem separated_tail (sep : List ι) {comma close : ι} (h : Readable ok stop render) (hcomma : stop comma)
    (hclose : stop close) (hne : comma ≠ close) (l l' : List α) (hl : ∀ a ∈ l, ok a) (hl' : ∀ a ∈ l', ok a)
    (rest rest' : List ι)
    (he : separated (comma :: sep) false (l.map render) ++ close :: rest =
      separated (comma :: sep) false (l'.map render) ++ close :: rest') : l = l' ∧ rest = rest' := by
  induction l generalizing l' with
  | nil =>
    cases l' with
    | nil => exact ⟨rfl, (List.cons.inj he).2⟩
    | cons b l' => exact absurd (List.cons.inj he).1.symm hne
  | cons a l ih =>
    cases l' with
    | nil => exact absurd (List.cons.inj he).1 hne
    | cons b l' =>
      simp only [List.map_cons, separated, List.append_assoc] at he
      obtain ⟨hab, hrest⟩ := separated_item h hcomma hclose (hl a List.mem_cons_self)
        (hl' b List.mem_cons_self) (List.append_cancel_left he)
      obtain ⟨hll, htail⟩ := ih l' (fun c hc => hl c (List.mem_cons_of_mem a hc))
        (fun c hc => hl' c (List.mem_cons_of_mem b hc)) hrest
      exact ⟨by rw [hab, hll], htail⟩

/-- The items of a list, separated and closed. -/
theorem list (sep : List ι) {comma close : ι} (h : Readable ok stop render) (hb : Begins first render)
    (hcomma : stop comma) (hclose : stop close) (hne : comma ≠ close) (hfirst : ¬ first close) :
    Readable (fun l : List α => ∀ a ∈ l, ok a) stop
      fun l => separated (comma :: sep) true (l.map render) ++ [close] := by
  intro l l' rest rest' hl hl' _ _ he
  simp only [List.append_assoc, List.singleton_append] at he
  cases l with
  | nil =>
    cases l' with
    | nil => exact ⟨rfl, (List.cons.inj he).2⟩
    | cons b l' =>
      simp only [List.map_cons, List.map_nil, separated, List.append_assoc] at he
      exact absurd he.symm (begins_ne hb hfirst b _ _)
  | cons a l =>
    cases l' with
    | nil =>
      simp only [List.map_cons, List.map_nil, separated, List.append_assoc] at he
      exact absurd he (begins_ne hb hfirst a _ _)
    | cons b l' =>
      simp only [List.map_cons, separated, List.append_assoc] at he
      obtain ⟨hab, hrest⟩ := separated_item h hcomma hclose (hl a List.mem_cons_self)
        (hl' b List.mem_cons_self) he
      obtain ⟨hll, htail⟩ := separated_tail sep h hcomma hclose hne l l'
        (fun c hc => hl c (List.mem_cons_of_mem a hc)) (fun c hc => hl' c (List.mem_cons_of_mem b hc))
        rest rest' hrest
      exact ⟨by rw [hab, hll], htail⟩

/-- Renderings one after the other, where each may stand in front of the next. -/
theorem many (h : Readable ok stop render) (hb : Begins first render) (hfirst : ∀ c, first c → stop c)
    {l l' : List α} (hl : ∀ a ∈ l, ok a) (hl' : ∀ a ∈ l', ok a)
    (he : (l.map render).flatten = (l'.map render).flatten) : l = l' := by
  have hstops : ∀ items : List α, Stops stop (items.map render).flatten := by
    intro items
    cases items with
    | nil => exact stops_nil
    | cons a items =>
      obtain ⟨c, rest, hr, hc⟩ := hb a
      rw [List.map_cons, List.flatten_cons, hr, List.cons_append]
      exact stops_cons (hfirst c hc)
  have hne : ∀ (a : α) (rest : List ι), render a ++ rest ≠ [] := by
    intro a rest hnil
    obtain ⟨c, r, hr, -⟩ := hb a
    rw [hr] at hnil
    cases hnil
  induction l generalizing l' with
  | nil =>
    cases l' with
    | nil => rfl
    | cons b l' => exact absurd he.symm (hne b _)
  | cons a l ih =>
    cases l' with
    | nil => exact absurd he (hne a _)
    | cons b l' =>
      simp only [List.map_cons, List.flatten_cons] at he
      obtain ⟨hab, hrest⟩ := h a b _ _ (hl a List.mem_cons_self) (hl' b List.mem_cons_self)
        (hstops l) (hstops l') he
      rw [hab, ih (fun c hc => hl c (List.mem_cons_of_mem a hc))
        (fun c hc => hl' c (List.mem_cons_of_mem b hc)) hrest]

/-- Renderings of several kinds one after the other, each closed in itself: who knows the kinds
can tell the items, and how many there are. -/
theorem sequence {κ : Type} {γ : κ → Type} {good : κ → Prop} {ok : ∀ k, γ k → Prop} {render : ∀ k, γ k → List ι}
    (h : ∀ k, good k → Readable (ok k) (fun _ => True) (render k)) (hne : ∀ k a, render k a ≠ [])
    {kinds : List κ} (hkinds : ∀ k ∈ kinds, good k) {l l' : List (Sigma γ)}
    (hl : l.map Sigma.fst <+: kinds) (hl' : l'.map Sigma.fst <+: kinds)
    (hok : ∀ a ∈ l, ok a.1 a.2) (hok' : ∀ a ∈ l', ok a.1 a.2)
    (he : l.flatMap (fun a => render a.1 a.2) = l'.flatMap fun a => render a.1 a.2) : l = l' := by
  have hempty : ∀ {rest : List (Sigma γ)}, rest.flatMap (fun a => render a.1 a.2) = [] → rest = [] := by
    intro rest hrest
    apply List.eq_nil_iff_forall_not_mem.2
    intro a ha
    exact hne a.1 a.2 (List.flatMap_eq_nil_iff.1 hrest a ha)
  induction kinds generalizing l l' with
  | nil =>
    have hnone : ∀ {rest : List (Sigma γ)}, rest.map Sigma.fst <+: [] → rest = [] :=
      fun hrest => List.map_eq_nil_iff.1 (List.prefix_nil.1 hrest)
    rw [hnone hl, hnone hl']
  | cons k kinds ih =>
    cases l with
    | nil => exact (hempty he.symm).symm
    | cons a l =>
      cases l' with
      | nil => exact hempty he
      | cons b l' =>
        obtain ⟨ka, a⟩ := a
        obtain ⟨kb, b⟩ := b
        obtain ⟨rfl, hrest⟩ := List.cons_prefix_cons.1 hl
        obtain ⟨rfl, hrest'⟩ := List.cons_prefix_cons.1 hl'
        rw [List.flatMap_cons, List.flatMap_cons] at he
        obtain ⟨hab, htail⟩ := h _ (hkinds _ List.mem_cons_self) a b _ _ (hok _ List.mem_cons_self)
          (hok' _ List.mem_cons_self) (fun _ _ => trivial) (fun _ _ => trivial) he
        rw [hab, ih (fun k hk => hkinds k (List.mem_cons_of_mem _ hk)) hrest hrest'
          (fun c hc => hok c (List.mem_cons_of_mem _ hc)) (fun c hc => hok' c (List.mem_cons_of_mem _ hc)) htail]

end Readable

/-- Numbers, in front of anything but a digit. -/
theorem digits_readable : Readable (fun _ => True) (fun c => c.isDigit = false) (Nat.toDigits 10) := by
  have hin : ∀ n : Nat, True → ∀ c ∈ Nat.toDigits 10 n, c.isDigit = true :=
    fun n _ c hc => Nat.isDigit_of_mem_toDigits (by decide) (by decide) hc
  have hinj : ∀ m n : Nat, True → True → Nat.toDigits 10 m = Nat.toDigits 10 n → m = n := by
    intro m n _ _ he
    have hm : Nat.ofDigitChars 10 (Nat.toDigits 10 m) 0 = m := Nat.ofDigitChars_ten_toDigits
    rw [← hm, he, Nat.ofDigitChars_ten_toDigits]
  exact Readable.span hin hinj fun c hstop hdigit => by cases hstop.symm.trans hdigit

/-- What stands in front of the first quote. -/
theorem cut {quote : ι} {xs ys rest rest' : List ι} (hx : quote ∉ xs) (hy : quote ∉ ys)
    (he : xs ++ quote :: rest = ys ++ quote :: rest') : xs = ys ∧ rest = rest' := by
  have hquoted : Readable (quote ∉ ·) (fun _ => True) fun text => text ++ [quote] := Readable.quoted quote
  exact hquoted xs ys rest rest' hx hy (fun _ _ => trivial) (fun _ _ => trivial) (by simpa using he)

end ExploreCpp

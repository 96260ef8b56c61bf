import Mathlib.Data.List.Basic
/-!
# Machines that keep their history

A machine here is a relation `step h s acts s'`: in state `s`, with the history `h` behind it, it may do `acts` and be
in `s'`.  Histories are written newest first, so doing `acts` after `h` leaves `acts ++ h`, and a guard may read the
history.  `Star` is any number of steps; `Star.inv` is the induction every safety property goes through, and
`Star.append` says that a history only grows.  `about` is the part of a history that one of several machines left in it,
`since` cuts a history at its last mark, and `Each` says something of every act together with what came before it.
-/
namespace History

variable {α S : Type}
variable {p : α → Bool} {a : α}

/-- **Any number of steps**, with what they did put before the history they started from. -/
inductive Star (step : List α → S → List α → S → Prop) (h : List α) (s : S) : List α → S → Prop
  | refl : Star step h s h s
  | tail {h' acts : List α} {s' s'' : S} (run : Star step h s h' s') (one : step h' s' acts s'') :
      Star step h s (acts ++ h') s''

variable {step step' : List α → S → List α → S → Prop} {h h' h'' acts : List α} {s s' s'' : S}

theorem Star.single (one : step h s acts s') : Star step h s (acts ++ h) s' := .tail .refl one

theorem Star.trans (r₁ : Star step h s h' s') (r₂ : Star step h' s' h'' s'') : Star step h s h'' s'' := by
  induction r₂ with
  | refl => exact r₁
  | tail _ one ih => exact .tail ih one

/-- **A fact every step keeps is a fact of every run.** -/
theorem Star.inv (I : List α → S → Prop) (keep : ∀ h s acts s', I h s → step h s acts s' → I (acts ++ h) s')
    (run : Star step h s h' s') (h0 : I h s) : I h' s' := by
  induction run with
  | refl => exact h0
  | tail _ one ih => exact keep _ _ _ _ ih one

theorem Star.mono (sub : ∀ h s acts s', step h s acts s' → step' h s acts s') (run : Star step h s h' s') :
    Star step' h s h' s' := by
  induction run with
  | refl => exact .refl
  | tail _ one ih => exact .tail ih (sub _ _ _ _ one)

theorem Star.append (run : Star step h s h' s') : ∃ new, h' = new ++ h := by
  induction run with
  | refl => exact ⟨[], rfl⟩
  | tail _ _ ih => obtain ⟨new, rfl⟩ := ih; exact ⟨_ ++ new, (List.append_assoc _ _ _).symm⟩

/-- **A fact about what was done since**, of a run that does nothing but what `p` says. -/
theorem Star.since_inv {p : α → Prop} {new : List α} (I : List α → S → Prop)
    (keep : ∀ h s new acts s', I new s → step h s acts s' → (∀ a ∈ acts, p a) → I (acts ++ new) s')
    (run : Star step h s h' s') (hnew : h' = new ++ h) (hp : ∀ a ∈ new, p a) (h0 : I [] s) : I new s' := by
  induction run generalizing new with
  | refl =>
    rw [List.self_eq_append_left.1 hnew]
    exact h0
  | tail run one ih =>
    obtain ⟨new₁, rfl⟩ := run.append
    rw [← List.append_assoc] at hnew
    cases List.append_cancel_right hnew
    obtain ⟨hacts, hnew₁⟩ := List.forall_mem_append.1 hp
    exact keep _ _ _ _ _ (ih rfl hnew₁) one hacts

/-! ## The part of a history about one thing -/

section
variable {κ : Type} [DecidableEq κ] {key : α → Option κ} {k : κ} {new h : List α} {a : α}

/-- The acts whose key is `k`. -/
def about (key : α → Option κ) (k : κ) (h : List α) : List α := h.filter (fun a => key a == some k)

theorem about_append (key : α → Option κ) (k : κ) (new h : List α) :
    about key k (new ++ h) = about key k new ++ about key k h := List.filter_append ..

theorem mem_about : a ∈ about key k h ↔ a ∈ h ∧ key a = some k := by
  simp [about]

theorem about_own (hnew : ∀ a ∈ new, key a = some k) : about key k new = new :=
  List.filter_eq_self.2 (fun a ha => by simp [hnew a ha])

theorem about_eq_nil (hnew : ∀ a ∈ new, key a ≠ some k) : about key k new = [] :=
  List.filter_eq_nil_iff.2 (fun a ha => by simp [hnew a ha])

theorem about_skip (hnew : ∀ a ∈ new, key a ≠ some k) (h : List α) : about key k (new ++ h) = about key k h := by
  rw [about_append, about_eq_nil hnew, List.nil_append]

theorem about_cons_own (ha : key a = some k) (h : List α) : about key k (a :: h) = a :: about key k h := by
  simp [about, ha]

theorem about_cons_other (ha : key a ≠ some k) (h : List α) : about key k (a :: h) = about key k h := by
  simp [about, ha]

end

/-! ## The part of a history after its last mark -/

/-- What was done since the last act with the mark `p`, newest first: all of it when there is none. -/
def since (p : α → Bool) (h : List α) : List α := h.takeWhile (fun a => !p a)

theorem since_cons_mark (ha : p a = true) (h : List α) : since p (a :: h) = [] := by
  simp [since, ha]

theorem since_cons (ha : p a = false) (h : List α) : since p (a :: h) = a :: since p h := by
  simp [since, ha]

theorem since_append : ∀ {new : List α} (_ : ∀ a ∈ new, p a = false) (h : List α),
    since p (new ++ h) = new ++ since p h
  | [], _, _ => rfl
  | a :: new, hn, h => by
    rw [List.cons_append, since_cons (hn a List.mem_cons_self),
      since_append (fun b hb => hn b (List.mem_cons_of_mem _ hb)), List.cons_append]

theorem mem_of_mem_since (ha : a ∈ since p h) : a ∈ h :=
  (List.takeWhile_prefix _).subset ha

/-! ## A history in pieces -/

/-- The history cut before every mark: pieces newest first, each with the mark it began with as its oldest act. -/
def pieces (p : α → Bool) : List α → List (List α)
  | [] => []
  | a :: h =>
    if p a then [a] :: pieces p h
    else
      match pieces p h with
      | [] => [[a]]
      | e :: es => (a :: e) :: es

theorem pieces_cons_mark (ha : p a = true) (h : List α) : pieces p (a :: h) = [a] :: pieces p h := by
  simp [pieces, ha]

/-- What is no mark goes on with the newest piece. -/
theorem pieces_append {e : List α} {es : List (List α)} (he : pieces p h = e :: es) :
    ∀ {new : List α}, (∀ a ∈ new, p a = false) → pieces p (new ++ h) = (new ++ e) :: es
  | [], _ => he
  | a :: new, hnew => by
    have ih := pieces_append he (fun b hb => hnew b (List.mem_cons_of_mem _ hb))
    rw [List.cons_append, pieces, if_neg (by simp [hnew a List.mem_cons_self]), ih]
    rfl

theorem flatten_pieces (p : α → Bool) : ∀ h : List α, (pieces p h).flatten = h
  | [] => rfl
  | a :: h => by
    have ih := flatten_pieces p h
    rw [pieces]
    split
    · rw [List.flatten_cons, ih]
      rfl
    · split
      · rename_i hnil
        rw [hnil] at ih
        rw [← ih]
        rfl
      · rename_i e es hcons
        rw [hcons] at ih
        rw [← ih]
        rfl

/-- The newest piece, if there is one, and the older ones. -/
theorem flatten_pieces_head (p : α → Bool) (h : List α) : (pieces p h).headD [] ++ (pieces p h).tail.flatten = h := by
  have hflat := flatten_pieces p h
  cases hp : pieces p h with
  | nil => rwa [hp] at hflat
  | cons e es => rwa [hp] at hflat

/-- The newest piece is what was done since the last mark, and the mark if there was one. -/
theorem pieces_head {e : List α} {es : List (List α)} : ∀ {h : List α}, pieces p h = e :: es →
    ∃ mark, (∀ a ∈ mark, p a = true) ∧ e = since p h ++ mark
  | [], he => by cases he
  | a :: h, he => by
    cases ha : p a with
    | true =>
      rw [pieces_cons_mark ha] at he
      cases he
      exact ⟨[a], List.forall_mem_singleton.2 ha, by rw [since_cons_mark ha, List.nil_append]⟩
    | false =>
      rw [since_cons ha]
      rw [pieces, if_neg (by simp [ha])] at he
      cases hp : pieces p h with
      | nil =>
        have hnil : h = [] := by rw [← flatten_pieces p h, hp, List.flatten_nil]
        rw [hp] at he
        cases he
        exact ⟨[], List.forall_mem_nil _, by rw [hnil]; rfl⟩
      | cons e' es' =>
        obtain ⟨mark, hmark, rfl⟩ := pieces_head hp
        rw [hp] at he
        cases he
        exact ⟨mark, hmark, rfl⟩

theorem pieces_grow : ∀ {new : List α}, new ≠ [] → (∀ a ∈ new, p a = false) → ∀ h : List α,
    pieces p (new ++ h) = (new ++ (pieces p h).headD []) :: (pieces p h).tail
  | [], hne, _, _ => absurd rfl hne
  | a :: new, _, hnew, h => by
    rw [List.cons_append, pieces, if_neg (by simp [hnew a List.mem_cons_self])]
    by_cases hnil : new = []
    · subst hnil
      rw [List.nil_append]
      cases pieces p h <;> rfl
    · rw [pieces_grow hnil (fun b hb => hnew b (List.mem_cons_of_mem _ hb)) h]
      rfl

/-! ## Every act, with what came before it -/

/-- Every act of the history has the property, with the history it found. -/
def Each (p : α → List α → Prop) : List α → Prop
  | [] => True
  | a :: h => p a h ∧ Each p h

theorem each_iff {p : α → List α → Prop} : Each p h ↔ ∀ newer a older, h = newer ++ a :: older → p a older := by
  induction h with
  | nil => exact ⟨fun _ newer _ _ he => by (cases newer <;> cases he), fun _ => trivial⟩
  | cons b h ih =>
    refine ⟨fun ⟨hb, hh⟩ newer a older he => ?_, fun hall => ⟨hall [] b h rfl, ih.2 (fun newer a older he => ?_)⟩⟩
    · cases newer with
      | nil => cases he; exact hb
      | cons _ newer => cases he; exact ih.1 hh newer a older rfl
    · exact hall (b :: newer) a older (by rw [he, List.cons_append])

theorem Each.suffix {p : α → List α → Prop} {h' : List α} (hh : Each p h) (hs : h' <:+ h) : Each p h' := by
  obtain ⟨new, rfl⟩ := hs
  induction new with
  | nil => exact hh
  | cons a new ih => exact ih hh.2

/-- A property of one machine's acts, read where the act stands among all. -/
theorem Each.at_about {κ : Type} [DecidableEq κ] {key : α → Option κ} {k : κ} {p : α → List α → Prop}
    {newer older : List α} (h : Each p (about key k (newer ++ a :: older))) (ha : key a = some k) :
    p a (about key k older) := by
  rw [about_append, about_cons_own ha] at h
  exact each_iff.1 h _ _ _ rfl

/-- What one machine did since its last mark, found among all acts. -/
theorem exists_of_mem_since_about {κ : Type} [DecidableEq κ] {key : α → Option κ} {k : κ} :
    ∀ {h : List α}, a ∈ since p (about key k h) →
      ∃ newer older, h = newer ++ a :: older ∧ ∀ b ∈ newer, key b = some k → p b = false
  | [], ha => by cases ha
  | b :: h, ha => by
    by_cases hb : key b = some k
    · rw [about_cons_own hb] at ha
      cases hp : p b with
      | true =>
        rw [since_cons_mark hp] at ha
        cases ha
      | false =>
        rw [since_cons hp] at ha
        rcases List.mem_cons.1 ha with rfl | ha
        · exact ⟨[], h, rfl, fun c hc => by cases hc⟩
        · obtain ⟨newer, older, rfl, hnewer⟩ := exists_of_mem_since_about ha
          exact ⟨b :: newer, older, rfl, List.forall_mem_cons.2 ⟨fun _ => hp, hnewer⟩⟩
    · rw [about_cons_other hb] at ha
      obtain ⟨newer, older, rfl, hnewer⟩ := exists_of_mem_since_about ha
      exact ⟨b :: newer, older, rfl, List.forall_mem_cons.2 ⟨fun h => absurd h hb, hnewer⟩⟩

/-- Acts that have the property whatever else was done before them. -/
theorem Each.append {p : α → List α → Prop} (hh : Each p h) : ∀ {acts : List α},
    (∀ a ∈ acts, ∀ between, p a (between ++ h)) → Each p (acts ++ h)
  | [], _ => hh
  | a :: _, ha => ⟨ha a List.mem_cons_self _, Each.append hh (fun b hb => ha b (List.mem_cons_of_mem _ hb))⟩

end History

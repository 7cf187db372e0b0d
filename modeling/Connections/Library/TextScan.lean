import Mathlib.Algebra.GroupWithZero.Nat
import Mathlib.Data.List.Basic

/-!
# Leftmost scanning

A matcher says whether a pattern matches at the start of a list and what is left after it.  The
leftmost match, the cut at every match and the replacement of every match are derived from it.  A
piece is quiet before what follows it when no match starts inside it; a matcher is local before an
ending when that ending is never needed for a match.
-/

namespace TextScan

variable {α β : Type*}

/-- An element of a joined list stands in the separator or in one of the parts. -/
theorem mem_intercalate {sep : List α} {parts : List (List α)} {c : α}
    (h : c ∈ sep.intercalate parts) : c ∈ sep ∨ ∃ part ∈ parts, c ∈ part := by
  induction parts with
  | nil => simp at h
  | cons part parts ih =>
    cases parts with
    | nil => exact .inr ⟨part, List.mem_cons_self, by simpa using h⟩
    | cons part' parts =>
      rw [List.intercalate_cons_cons, List.append_assoc, List.mem_append, List.mem_append] at h
      rcases h with h | h | h
      · exact .inr ⟨part, List.mem_cons_self, h⟩
      · exact .inl h
      · rcases ih h with h | ⟨q, hq, hc⟩
        · exact .inl h
        · exact .inr ⟨q, List.mem_cons_of_mem part hq, hc⟩

/-- Parts with a separator between them and behind the last are parts that each end with it. -/
theorem intercalate_append_self {sep : List α} {parts : List (List α)} (hne : parts ≠ []) :
    sep.intercalate parts ++ sep = (parts.map (· ++ sep)).flatten := by
  induction parts with
  | nil => exact absurd rfl hne
  | cons part parts ih =>
    cases parts with
    | nil => simp
    | cons part' parts =>
      rw [List.intercalate_cons_cons, List.map_cons, List.flatten_cons, ← ih (by simp),
        List.append_assoc]

/-- Joined lists that differ in one part are different. -/
theorem intercalate_cancel {sep : List α} {before after : List (List α)} {a b : List α}
    (h : sep.intercalate (before ++ a :: after) = sep.intercalate (before ++ b :: after)) :
    a = b := by
  have hends := congrArg (· ++ sep) h
  rw [intercalate_append_self (by simp), intercalate_append_self (by simp)] at hends
  simpa using hends

/-- A joined list has the elements of its parts and of the separators between them. -/
theorem length_intercalate (sep : List α) (pieces : List (List α)) :
    (sep.intercalate pieces).length =
      (pieces.map List.length).sum + sep.length * (pieces.length - 1) := by
  induction pieces with
  | nil => simp
  | cons first rest ih =>
    cases rest with
    | nil => simp [List.intercalate]
    | cons second rest =>
      have hseps : sep.length * (rest.length + 1 + 1 - 1) =
          sep.length + sep.length * (rest.length + 1 - 1) := by
        rw [Nat.add_sub_cancel, Nat.add_sub_cancel, Nat.mul_succ, Nat.add_comm]
      rw [List.intercalate_cons_cons]
      simp only [List.length_append, ih, List.map_cons, List.sum_cons, List.length_cons]
      omega

/-- The result of the leftmost match. -/
def firstMatch (look : List α → Option β) : List α → Option β
  | [] => look []
  | c :: s => (look (c :: s)).or (firstMatch look s)

/-- The elements before the first match. -/
def before (look : List α → Option β) : List α → Option (List α)
  | [] => (look []).map fun _ => []
  | c :: s => if (look (c :: s)).isSome then some [] else (before look s).map (c :: ·)

/-- The elements outside every match and the results of the matches, from left to right; a match
that was taken is skipped over. -/
def scanFrom (look : List α → Option (β × List α)) : ℕ → List α → List (α ⊕ β)
  | _, [] => []
  | skip + 1, _ :: s => scanFrom look skip s
  | 0, c :: s =>
    match look (c :: s) with
    | none => .inl c :: scanFrom look 0 s
    | some (b, rest) => .inr b :: scanFrom look (s.length - rest.length) s

/-- Scan a whole list. -/
def scan (look : List α → Option (β × List α)) (s : List α) : List (α ⊕ β) := scanFrom look 0 s

/-- The pieces between the matches. -/
def pieces : List (α ⊕ β) → List (List α)
  | [] => [[]]
  | .inl c :: tokens => (pieces tokens).modifyHead (c :: ·)
  | .inr _ :: tokens => [] :: pieces tokens

/-- Cut a list at every match. -/
def splitAll (look : List α → Option (β × List α)) (s : List α) : List (List α) :=
  pieces (scan look s)

/-- Put the result of every match in its place. -/
def replaceAll (look : List α → Option (List α × List α)) (s : List α) : List α :=
  (scan look s).flatMap (Sum.elim (fun c => [c]) id)

/-- Cut a list before every match that is not at its start. -/
def splitBefore (look : List α → Option β) : List α → List (List α)
  | [] => [[]]
  | [c] => [[c]]
  | c :: d :: s =>
    if (look (d :: s)).isSome then [c] :: splitBefore look (d :: s)
    else (splitBefore look (d :: s)).modifyHead (c :: ·)

/-- No match starts inside a piece when the given list follows it. -/
def Quiet (look : List α → Option β) : List α → List α → Prop
  | [], _ => True
  | c :: s, t => look (c :: (s ++ t)) = none ∧ Quiet look s t

section Quiet

variable {look : List α → Option β}

@[simp] theorem quiet_nil (t : List α) : Quiet look [] t := trivial

@[simp] theorem quiet_cons (c : α) (s t : List α) :
    Quiet look (c :: s) t ↔ look (c :: (s ++ t)) = none ∧ Quiet look s t := Iff.rfl

/-- A piece made of two is quiet when both halves are. -/
theorem quiet_append {s s' t : List α} :
    Quiet look (s ++ s') t ↔ Quiet look s (s' ++ t) ∧ Quiet look s' t := by
  induction s with
  | nil => simp
  | cons c s ih => simp only [List.cons_append, quiet_cons, ih, List.append_assoc, and_assoc]

/-- A piece is quiet for a matcher that matches less. -/
theorem Quiet.of_imp {γ : Type*} {look' : List α → Option γ} {s t : List α} (h : Quiet look s t)
    (himp : ∀ v, look v = none → look' v = none) : Quiet look' s t := by
  induction s with
  | nil => trivial
  | cons c s ih => exact ⟨himp _ h.1, ih h.2⟩

/-- A piece is quiet when no element of it starts a match. -/
theorem quiet_of_forall {s : List α} (t : List α) (h : ∀ c ∈ s, ∀ r, look (c :: r) = none) :
    Quiet look s t := by
  induction s with
  | nil => trivial
  | cons c s ih =>
    exact ⟨h c List.mem_cons_self _, ih fun d hd => h d (List.mem_cons_of_mem c hd)⟩

/-- A piece is quiet when none of its endings starts a match. -/
theorem quiet_of_suffix {s t : List α}
    (h : ∀ v, v ≠ [] → v <:+ s → look (v ++ t) = none) : Quiet look s t := by
  induction s with
  | nil => trivial
  | cons c s ih =>
    refine ⟨h (c :: s) (by simp) List.suffix_rfl, ih fun v hv hs => ?_⟩
    exact h v hv (hs.trans (List.suffix_cons c s))

/-- The leftmost match is behind a quiet piece. -/
theorem firstMatch_append {s t : List α} (h : Quiet look s t) :
    firstMatch look (s ++ t) = firstMatch look t := by
  induction s with
  | nil => rfl
  | cons c s ih =>
    obtain ⟨hc, hs⟩ := h
    rw [List.cons_append, firstMatch, hc, Option.none_or, ih hs]

/-- A match at the start is the leftmost one. -/
theorem firstMatch_of_some {s : List α} {b : β} (h : look s = some b) :
    firstMatch look s = some b := by
  cases s with
  | nil => exact h
  | cons c s => rw [firstMatch, h, Option.some_or]

/-- A list without matches has no leftmost match. -/
theorem firstMatch_eq_none {s : List α} (h : Quiet look s []) (hnil : look [] = none) :
    firstMatch look s = none := by
  have hs := firstMatch_append h
  rwa [List.append_nil, firstMatch, hnil] at hs

/-- A list without a leftmost match has no match at any of its endings. -/
theorem eq_none_of_firstMatch {s v : List α} (h : firstMatch look s = none) (hv : v <:+ s) :
    look v = none := by
  induction s with
  | nil =>
    obtain rfl : v = [] := List.suffix_nil.mp hv
    exact h
  | cons c s ih =>
    rw [firstMatch, Option.or_eq_none_iff] at h
    rcases List.suffix_cons_iff.mp hv with rfl | hv
    · exact h.1
    · exact ih h.2 hv

/-- An ending that no match needs leaves the leftmost match where it is. -/
theorem firstMatch_local {s t : List α} {b : β} (extend : β → β)
    (hlocal : ∀ v, look (v ++ t) = (look v).map extend) (h : firstMatch look s = some b) :
    firstMatch look (s ++ t) = some (extend b) := by
  induction s with
  | nil =>
    have hl : look [] = some b := h
    have ht : look ([] ++ t) = some (extend b) := by rw [hlocal, hl, Option.map_some]
    exact firstMatch_of_some ht
  | cons c s ih =>
    have hc := hlocal (c :: s)
    rw [List.cons_append] at hc ⊢
    cases hl : look (c :: s) with
    | some b₁ =>
      obtain rfl : b₁ = b := by simpa [firstMatch, hl] using h
      rw [hl, Option.map_some] at hc
      exact firstMatch_of_some hc
    | none =>
      have hrest : firstMatch look s = some b := by simpa [firstMatch, hl] using h
      rw [hl, Option.map_none] at hc
      rw [firstMatch, hc, Option.none_or, ih hrest]

theorem before_of_isSome {t : List α} (ht : (look t).isSome) : before look t = some [] := by
  obtain ⟨b, hb⟩ := Option.isSome_iff_exists.mp ht
  cases t with
  | nil => rw [before, hb, Option.map_some]
  | cons c t => rw [before, if_pos ht]

/-- What stands before the first match behind a quiet piece. -/
theorem before_append {s t : List α} (h : Quiet look s t) (ht : (look t).isSome) :
    before look (s ++ t) = some s := by
  induction s with
  | nil => exact before_of_isSome ht
  | cons c s ih =>
    obtain ⟨hc, hs⟩ := h
    rw [List.cons_append, before, hc, ih hs]
    simp

/-- An ending that no match needs leaves what stands before the first match as it is. -/
theorem before_local {s t x : List α} (hlocal : ∀ v, (look (v ++ t)).isSome = (look v).isSome)
    (h : before look s = some x) : before look (s ++ t) = some x := by
  induction s generalizing x with
  | nil =>
    have hnil : (look []).isSome ∧ x = [] := by
      cases hl : look [] with
      | none => simp [before, hl] at h
      | some b => exact ⟨rfl, by simpa [before, hl] using h.symm⟩
    have ht : (look t).isSome := (hlocal []).trans hnil.1
    rw [hnil.2]
    exact before_of_isSome ht
  | cons c s ih =>
    have hc := hlocal (c :: s)
    rw [List.cons_append] at hc ⊢
    by_cases hl : (look (c :: s)).isSome
    · rw [before, if_pos hl] at h
      rw [before, hc, if_pos hl, h]
    · rw [before, if_neg hl] at h
      obtain ⟨y, hy, rfl⟩ := Option.map_eq_some_iff.mp h
      rw [before, hc, if_neg hl, ih hy, Option.map_some]

end Quiet

section Pieces

theorem pieces_ne_nil (tokens : List (α ⊕ β)) : pieces tokens ≠ [] := by
  cases tokens with
  | nil => simp [pieces]
  | cons token tokens =>
    cases token with
    | inl c =>
      intro h
      have hlen := congrArg List.length h
      rw [pieces, List.length_modifyHead] at hlen
      exact pieces_ne_nil tokens (List.eq_nil_of_length_eq_zero hlen)
    | inr b => simp [pieces]

/-- Plain elements go to the front of the first piece. -/
theorem pieces_map_append (s : List α) (tokens : List (α ⊕ β)) :
    pieces (s.map .inl ++ tokens) = (pieces tokens).modifyHead (s ++ ·) := by
  induction s with
  | nil => cases h : pieces tokens <;> simp [h]
  | cons c s ih =>
    rw [List.map_cons, List.cons_append, pieces, ih]
    cases pieces tokens <;> simp

/-- The last piece of one scan and the first piece of the next are one piece of both together. -/
theorem pieces_append {tokens tokens' : List (α ⊕ β)} {ps qs : List (List α)} {p q : List α}
    (h : pieces tokens = ps ++ [p]) (h' : pieces tokens' = q :: qs) :
    pieces (tokens ++ tokens') = ps ++ (p ++ q) :: qs := by
  induction tokens generalizing ps p with
  | nil =>
    obtain ⟨rfl, rfl⟩ : ps = [] ∧ p = [] := by
      cases ps <;> simp_all [pieces]
    simpa using h'
  | cons token tokens ih =>
    cases token with
    | inl c =>
      rw [pieces] at h
      rw [List.cons_append, pieces]
      cases hp : pieces tokens with
      | nil => exact absurd hp (pieces_ne_nil tokens)
      | cons x xs =>
        rw [hp, List.modifyHead_cons] at h
        cases ps with
        | nil =>
          obtain ⟨rfl, rfl⟩ : c :: x = p ∧ xs = [] := by simpa using h
          have hone : pieces tokens = [] ++ [x] := hp
          rw [ih hone]
          simp
        | cons y ps =>
          obtain ⟨rfl, rfl⟩ : c :: x = y ∧ xs = ps ++ [p] := by simpa using h
          have hmore : pieces tokens = (x :: ps) ++ [p] := hp
          rw [ih hmore]
          simp
    | inr b =>
      rw [pieces] at h
      cases ps with
      | nil =>
        have hnil : pieces tokens = [] := by simp_all
        exact absurd hnil (pieces_ne_nil tokens)
      | cons y ps =>
        obtain ⟨rfl, hp⟩ : [] = y ∧ pieces tokens = ps ++ [p] := by simpa using h
        rw [List.cons_append, pieces, ih hp, List.cons_append]

end Pieces

section Scan

variable {look : List α → Option (β × List α)}

/-- A quiet piece is passed through. -/
theorem scan_append_quiet {s t : List α} (h : Quiet look s t) :
    scan look (s ++ t) = s.map .inl ++ scan look t := by
  induction s with
  | nil => rfl
  | cons c s ih =>
    obtain ⟨hc, hs⟩ := h
    simp only [scan, List.cons_append, scanFrom, hc, List.map_cons]
    exact congrArg _ (ih hs)

theorem scan_quiet {s : List α} (h : Quiet look s []) : scan look s = s.map .inl := by
  have hs := scan_append_quiet h
  simpa [scan, scanFrom] using hs

theorem scanFrom_append (s t : List α) : scanFrom look s.length (s ++ t) = scan look t := by
  induction s with
  | nil => rfl
  | cons c s ih => exact ih

/-- A match is taken whole. -/
theorem scan_of_match {c : α} {s rest : List α} {b : β}
    (h : look (c :: (s ++ rest)) = some (b, rest)) :
    scan look (c :: (s ++ rest)) = .inr b :: scan look rest := by
  simp only [scan, scanFrom, h, List.length_append, Nat.add_sub_cancel]
  exact congrArg _ (scanFrom_append s rest)

/-- An element that starts no match belongs to the first piece. -/
theorem splitAll_of_none {c : α} {s : List α} (h : look (c :: s) = none) :
    splitAll look (c :: s) = (splitAll look s).modifyHead (c :: ·) := by
  simp only [splitAll, scan, scanFrom, h, pieces]

/-- A match at the start cuts off an empty piece. -/
theorem splitAll_of_match {c : α} {s rest : List α} {b : β}
    (h : look (c :: (s ++ rest)) = some (b, rest)) :
    splitAll look (c :: (s ++ rest)) = [] :: splitAll look rest := by
  rw [splitAll, scan_of_match h, pieces, splitAll]

/-- A list with one match between two quiet pieces is cut into these. -/
theorem splitAll_of_one_match {s t : List α} {c : α} {mark : List α} {b : β}
    (hs : Quiet look s (c :: (mark ++ t))) (hm : look (c :: (mark ++ t)) = some (b, t))
    (ht : Quiet look t []) : splitAll look (s ++ c :: (mark ++ t)) = [s, t] := by
  have hrest : pieces (scan look t) = [t] := by
    have h := pieces_map_append (β := β) t []
    rw [List.append_nil] at h
    rw [scan_quiet ht, h, pieces, List.modifyHead_cons, List.append_nil]
  rw [splitAll, scan_append_quiet hs, scan_of_match hm, pieces_map_append, pieces, hrest,
    List.modifyHead_cons, List.append_nil]

/-- Where no match of the first part needs the ending, the two parts are scanned one after the
other. -/
theorem scan_append_local {s t : List α}
    (hlocal : ∀ v, v ≠ [] → look (v ++ t) = (look v).map (Prod.map id (· ++ t)))
    (hshort : ∀ v b r, look v = some (b, r) → r.length ≤ v.length) :
    scan look (s ++ t) = scan look s ++ scan look t := by
  have main : ∀ (s : List α) (skip : ℕ), skip ≤ s.length →
      scanFrom look skip (s ++ t) = scanFrom look skip s ++ scan look t := by
    intro s
    induction s with
    | nil =>
      intro skip hskip
      obtain rfl : skip = 0 := by simpa using hskip
      rfl
    | cons c s ih =>
      intro skip hskip
      cases skip with
      | succ skip => exact ih skip (by simpa using hskip)
      | zero =>
        have hc := hlocal (c :: s) (by simp)
        rw [List.cons_append] at hc
        cases hl : look (c :: s) with
        | none =>
          rw [hl, Option.map_none] at hc
          simp only [List.cons_append, scanFrom, hl, hc, ih 0 (Nat.zero_le _)]
        | some m =>
          obtain ⟨b, r⟩ := m
          have hr := hshort _ _ _ hl
          rw [hl, Option.map_some] at hc
          simp only [Prod.map_apply, id_eq] at hc
          simp only [List.cons_append, scanFrom, hl, hc, List.length_append]
          rw [show s.length + t.length - (r.length + t.length) = s.length - r.length by omega,
            ih _ (Nat.sub_le _ _)]
  exact main s 0 (Nat.zero_le _)

theorem replaceAll_quiet {look : List α → Option (List α × List α)} {s : List α}
    (h : Quiet look s []) : replaceAll look s = s := by
  rw [replaceAll, scan_quiet h, List.flatMap_map]
  simp

end Scan

section Framed

variable {look : List α → Option (List α × List α)} {P : α → Prop} {s : List α}

/-- A list is not empty and has a property at both ends. -/
structure Framed (P : α → Prop) (s : List α) : Prop where
  nonempty : s ≠ []
  head : ∀ c ∈ s.head?, P c
  last : ∀ c ∈ s.getLast?, P c

theorem framed_singleton {c : α} (h : P c) : Framed P [c] :=
  ⟨by simp, by simpa using h, by simpa using h⟩

/-- Lists put together are framed when the first and the last one are. -/
theorem framed_flatMap {τ : Type*} {f : τ → List α} {tokens : List τ} (hne : tokens ≠ [])
    (hhead : ∀ token ∈ tokens.head?, Framed P (f token))
    (hlast : ∀ token ∈ tokens.getLast?, Framed P (f token)) : Framed P (tokens.flatMap f) := by
  obtain ⟨first, rest, rfl⟩ := List.exists_cons_of_ne_nil hne
  have hfirst : Framed P (f first) := hhead first rfl
  obtain ⟨before, final, hfinal⟩ := (List.eq_nil_or_concat (first :: rest)).resolve_left hne
  rw [List.concat_eq_append] at hfinal
  have hend : Framed P (f final) := hlast final (by rw [hfinal]; simp)
  refine ⟨?_, ?_, ?_⟩
  · rw [List.flatMap_cons]
    exact List.append_ne_nil_of_left_ne_nil hfirst.nonempty _
  · rw [List.flatMap_cons, List.head?_append_of_ne_nil _ hfirst.nonempty]
    exact hfirst.head
  · rw [hfinal, List.flatMap_append, List.flatMap_singleton,
      List.getLast?_append_of_ne_nil _ hend.nonempty]
    exact hend.last

/-- The last token of a scan is the last element or the result of a match. -/
theorem getLast?_scanFrom {look : List α → Option (β × List α)} (skip : ℕ) (s : List α) :
    ∀ token ∈ (scanFrom look skip s).getLast?, (∃ c ∈ s.getLast?, token = .inl c) ∨
      ∃ b v rest, look v = some (b, rest) ∧ token = .inr b := by
  induction s generalizing skip with
  | nil => simp [scanFrom]
  | cons c s ih =>
    intro token htoken
    -- What holds of the tokens of `s` holds of those behind `c`.
    have hbehind : ∀ skip', token ∈ (scanFrom look skip' s).getLast? →
        (∃ d ∈ (c :: s).getLast?, token = .inl d) ∨
          ∃ b v rest, look v = some (b, rest) ∧ token = .inr b := by
      intro skip' hmem
      rcases ih skip' token hmem with ⟨d, hd, rfl⟩ | hmatch
      · exact .inl ⟨d, by rw [List.getLast?_cons, Option.mem_def.mp hd]; rfl, rfl⟩
      · exact .inr hmatch
    cases skip with
    | succ skip => exact hbehind skip htoken
    | zero =>
      rw [scanFrom] at htoken
      cases hlook : look (c :: s) with
      | none =>
        simp only [hlook, List.getLast?_cons] at htoken
        cases hrest : (scanFrom look 0 s).getLast? with
        | none =>
          -- Only an empty list leaves no token.
          have hs : s = [] := by
            cases s with
            | nil => rfl
            | cons d s =>
              rw [List.getLast?_eq_none_iff, scanFrom] at hrest
              split at hrest <;> cases hrest
          obtain rfl : .inl c = token := by simpa [hrest] using htoken
          exact .inl ⟨c, by rw [hs]; rfl, rfl⟩
        | some last =>
          obtain rfl : last = token := by simpa [hrest] using htoken
          exact hbehind 0 hrest
      | some found =>
        obtain ⟨b, rest⟩ := found
        simp only [hlook, List.getLast?_cons] at htoken
        cases hrest : (scanFrom look (s.length - rest.length) s).getLast? with
        | none =>
          obtain rfl : .inr b = token := by simpa [hrest] using htoken
          exact .inr ⟨b, c :: s, rest, hlook, rfl⟩
        | some last =>
          obtain rfl : last = token := by simpa [hrest] using htoken
          exact hbehind _ hrest

/-- Framed replacements leave a framed list framed. -/
theorem Framed.replaceAll (hs : Framed P s)
    (hlook : ∀ v b rest, look v = some (b, rest) → Framed P b) :
    Framed P (replaceAll look s) := by
  obtain ⟨c, s, rfl⟩ := List.exists_cons_of_ne_nil hs.nonempty
  refine framed_flatMap ?_ ?_ ?_
  · rw [scan, scanFrom]
    split <;> simp
  · intro token htoken
    rw [scan, scanFrom] at htoken
    cases hfound : look (c :: s) with
    | none =>
      obtain rfl : .inl c = token := by simpa [hfound] using htoken
      exact framed_singleton (hs.head c rfl)
    | some found =>
      obtain ⟨b, rest⟩ := found
      obtain rfl : .inr b = token := by simpa [hfound] using htoken
      exact hlook _ b rest hfound
  · intro token htoken
    rcases getLast?_scanFrom 0 (c :: s) token htoken with ⟨d, hd, rfl⟩ | ⟨b, v, rest, hv, rfl⟩
    · exact framed_singleton (hs.last d hd)
    · exact hlook v b rest hv

end Framed

section SplitBefore

variable {look : List α → Option β}

theorem splitBefore_quiet_cons {c : α} {s : List α} (h : Quiet look s []) :
    splitBefore look (c :: s) = [c :: s] := by
  induction s generalizing c with
  | nil => rfl
  | cons d s ih =>
    obtain ⟨hd, hs⟩ := h
    rw [List.append_nil] at hd
    rw [splitBefore, hd, ih hs]
    simp

/-- The first cut behind the start is at the first match there. -/
theorem splitBefore_append {c : α} {s t : List α} (h : Quiet look s t)
    (ht : (look t).isSome) (hne : t ≠ []) :
    splitBefore look (c :: (s ++ t)) = (c :: s) :: splitBefore look t := by
  induction s generalizing c with
  | nil =>
    cases t with
    | nil => exact absurd rfl hne
    | cons d t => simp [splitBefore, ht]
  | cons d s ih =>
    obtain ⟨hd, hs⟩ := h
    rw [List.cons_append, splitBefore, hd, ih hs]
    simp

end SplitBefore

end TextScan

import Mathlib.Algebra.BigOperators.Group.List.Basic
import Mathlib.Algebra.Order.Monoid.Canonical.Defs
import Mathlib.Data.List.Perm.Basic
import Mathlib.Order.Monotone.Basic
import Mathlib.Tactic.Abel

/-!
# Escrow accounts

An account holds escrowed amounts against a limit until they are settled into recorded use.  A
grant reads the held amount first and the used amount later, while settlements go on between and
after the two reads; the order of the reads is what keeps the limit.  The second part bounds a
sum of obligations by the sum of the rows that cover them.
-/

namespace Escrow

section Account

variable {M : Type*} [AddCommMonoid M] [PartialOrder M] [IsOrderedAddMonoid M]
  [CanonicallyOrderedAdd M]

/-- Where the grant in progress stands: nothing read, the held amount read, or both read. -/
inductive Quote (M : Type*)
  | idle
  | held (h : M)
  | both (h u : M)

/-- What is held, what is used, and the grant in progress. -/
structure Account (M : Type*) where
  held : M
  used : M
  quote : Quote M

/-- The steps of an account with a limit. -/
inductive Step (limit : M) : Account M → Account M → Prop
  | readHeld (a : Account M) : Step limit a { a with quote := .held a.held }
  | readUsed (a : Account M) (h : M) : a.quote = .held h →
      Step limit a { a with quote := .both h a.used }
  | grant (a : Account M) (h u t : M) : a.quote = .both h u → h + u + t ≤ limit →
      Step limit a { held := a.held + t, used := a.used, quote := .idle }
  | abandon (a : Account M) : Step limit a { a with quote := .idle }
  | settle (a : Account M) (rest t b : M) : a.held = rest + t → b ≤ t →
      Step limit a { a with held := rest, used := a.used + b }

/-- What the reads of a grant in progress still guarantee. -/
def Quote.Bounds (q : Quote M) (held used : M) : Prop :=
  match q with
  | .idle => True
  | .held h => held ≤ h
  | .both h u => held + used ≤ h + u

/-- The limit is kept, and the grant in progress has not read too little. -/
structure Safe (limit : M) (a : Account M) : Prop where
  within : a.held + a.used ≤ limit
  quoted : a.quote.Bounds a.held a.used

/-- Every step keeps the limit. -/
theorem Step.safe {limit : M} {a b : Account M} (h : Step limit a b) (ha : Safe limit a) :
    Safe limit b := by
  cases h with
  | readHeld => exact ⟨ha.within, le_refl a.held⟩
  | readUsed h hquote =>
    have hheld : a.held ≤ h := by simpa only [Quote.Bounds, hquote] using ha.quoted
    exact ⟨ha.within, add_le_add_left hheld a.used⟩
  | grant h u t hquote hfits =>
    have hread : a.held + a.used ≤ h + u := by simpa only [Quote.Bounds, hquote] using ha.quoted
    refine ⟨?_, trivial⟩
    calc a.held + t + a.used = a.held + a.used + t := by abel
      _ ≤ h + u + t := add_le_add_left hread t
      _ ≤ limit := hfits
  | abandon => exact ⟨ha.within, trivial⟩
  | settle rest t b hheld hle =>
    have hless : rest + (a.used + b) ≤ a.held + a.used := by
      calc rest + (a.used + b) ≤ rest + (a.used + t) :=
            add_le_add_right (add_le_add_right hle a.used) rest
        _ = rest + t + a.used := by abel
        _ = a.held + a.used := by rw [hheld]
    have hrest : rest ≤ a.held := hheld ▸ le_self_add
    refine ⟨hless.trans ha.within, ?_⟩
    have hquoted := ha.quoted
    revert hquoted
    cases a.quote with
    | idle => exact fun _ => trivial
    | held h => exact fun hq => hrest.trans hq
    | both h u => exact fun hq => hless.trans hq

end Account

section Cover

variable {ι κ ρ : Type*} {keyOf : ι → κ} {rowKey : ρ → κ} {due : ι → ℕ} {amount : ρ → ℕ}

/-- Obligations with distinct keys, each covered by a row of its key, come to at most the sum of
the rows. -/
theorem sum_le_of_covered (items : List ι) (rows : List ρ) (hkeys : (items.map keyOf).Nodup)
    (hcover : ∀ i ∈ items, ∃ r ∈ rows, rowKey r = keyOf i ∧ due i ≤ amount r) :
    (items.map due).sum ≤ (rows.map amount).sum := by
  induction items generalizing rows with
  | nil => simp
  | cons i items ih =>
    obtain ⟨r, hr, hkey, hle⟩ := hcover i List.mem_cons_self
    obtain ⟨before, after, rfl⟩ := List.append_of_mem hr
    rw [List.map_cons, List.nodup_cons] at hkeys
    -- The row of `i` covers no other obligation, so the rest is covered without it.
    have hrest := ih (before ++ after) hkeys.2 fun k hk => by
      obtain ⟨s, hs, hskey, hsle⟩ := hcover k (List.mem_cons_of_mem _ hk)
      refine ⟨s, ?_, hskey, hsle⟩
      rcases List.mem_append.mp hs with hs | hs
      · exact List.mem_append_left _ hs
      · rcases List.mem_cons.mp hs with rfl | hs
        · exact absurd (List.mem_map.mpr ⟨k, hk, hskey.symm.trans hkey⟩) hkeys.1
        · exact List.mem_append_right _ hs
    simp only [List.map_append, List.map_cons, List.sum_append, List.sum_cons] at hrest ⊢
    omega

end Cover

end Escrow

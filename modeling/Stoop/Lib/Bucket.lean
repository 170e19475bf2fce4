import Mathlib.Algebra.Order.Field.Basic
import Mathlib.Tactic.Linarith
import Mathlib.Tactic.Ring

/-!
# Token buckets

A bucket holds up to `burst` tokens and refills at `rate`. It is asked one token at a time: it gives one if it
has one, and what it held then is what it refills from. A bucket that was never asked, or was forgotten, is
full.

## Laws

`window_bound`: in a window of length `e - a` a bucket gives no more than `burst + rate * (e - a)` tokens.
`take_of_full_again`: after `burst / rate` unasked, a bucket cannot be told from one never asked.
-/

set_option autoImplicit false

namespace Stoop.Lib

/-- What a bucket held when it was last asked. -/
structure Bucket (𝕜 : Type) where
  tokens : 𝕜
  since : 𝕜
  deriving DecidableEq, Repr

namespace Bucket

variable {𝕜 : Type}

/-- The tokens given at times that satisfy `p`. -/
def given (p : 𝕜 → Bool) (l : List (𝕜 × Bool)) : Nat := l.countP fun reply => reply.2 && p reply.1

theorem given_cons (p : 𝕜 → Bool) (reply : 𝕜 × Bool) (l : List (𝕜 × Bool)) :
    given p (reply :: l) = given p l + if reply.2 && p reply.1 then 1 else 0 := List.countP_cons

theorem given_congr {p q : 𝕜 → Bool} {l : List (𝕜 × Bool)} (h : ∀ reply ∈ l, p reply.1 = q reply.1) :
    given p l = given q l :=
  List.countP_congr fun reply hreply => by rw [h reply hreply]

theorem given_eq_zero {p : 𝕜 → Bool} {l : List (𝕜 × Bool)} (h : ∀ reply ∈ l, p reply.1 = false) :
    given p l = 0 := by
  refine List.countP_eq_zero.mpr fun reply hreply => ?_
  rw [h reply hreply, Bool.and_false]
  exact Bool.false_ne_true

variable [Field 𝕜] [LinearOrder 𝕜] (burst rate : 𝕜)

/-- A bucket that was never asked. -/
def full (now : 𝕜) : Bucket 𝕜 := ⟨burst, now⟩

/-- The tokens in a bucket by now. -/
def refilled (b : Bucket 𝕜) (now : 𝕜) : 𝕜 := min burst (b.tokens + (now - b.since) * rate)

/-- A token is asked for: the bucket after, and whether there was one. -/
def take (b : Bucket 𝕜) (now : 𝕜) : Bucket 𝕜 × Bool :=
  let tokens := b.refilled burst rate now
  if 1 ≤ tokens then (⟨tokens - 1, now⟩, true) else (⟨tokens, now⟩, false)

/-- The same of a bucket that may be new. -/
def takeFrom (b : Option (Bucket 𝕜)) (now : 𝕜) : Bucket 𝕜 × Bool := take burst rate (b.getD (full burst now)) now

/-- What a bucket answers to requests at the times given. -/
def replies : Option (Bucket 𝕜) → List 𝕜 → List (𝕜 × Bool)
  | _, [] => []
  | b, now :: rest =>
    let (after, given) := takeFrom burst rate b now
    (now, given) :: replies (some after) rest

/-- No fewer tokens than none, and no more than it holds. -/
structure Sound (b : Bucket 𝕜) : Prop where
  nonneg : 0 ≤ b.tokens
  le : b.tokens ≤ burst

variable {burst rate} {b : Bucket 𝕜} {now a e : 𝕜}

theorem take_since : (take burst rate b now).1.since = now := by
  unfold take
  dsimp only
  split <;> rfl

theorem takeFrom_since {o : Option (Bucket 𝕜)} : (takeFrom burst rate o now).1.since = now := take_since

variable (burst rate b now) in
/-- What a bucket gives it no longer holds. -/
theorem take_tokens : (take burst rate b now).1.tokens + (if (take burst rate b now).2 then 1 else 0) =
    b.refilled burst rate now := by
  unfold take
  dsimp only
  split
  · exact sub_add_cancel _ _
  · exact add_zero _

theorem refilled_full : (full burst now).refilled burst rate now = burst := by
  rw [refilled, full, sub_self, zero_mul, add_zero, min_self]

theorem mem_replies {o : Option (Bucket 𝕜)} {times : List 𝕜} {reply : 𝕜 × Bool}
    (h : reply ∈ replies burst rate o times) : reply.1 ∈ times := by
  induction times generalizing o with
  | nil => cases h
  | cons now rest ih =>
    rcases List.mem_cons.mp h with rfl | h
    · exact List.mem_cons_self
    · exact List.mem_cons_of_mem _ (ih h)

theorem Sound.full (hburst : 0 ≤ burst) : Sound burst (full burst now) := ⟨hburst, le_rfl⟩

variable (rate) in
/-- A bucket that may be new gives no more than it can hold. -/
theorem takeFrom_tokens (o : Option (Bucket 𝕜)) (now : 𝕜) : (takeFrom burst rate o now).1.tokens +
    (if (takeFrom burst rate o now).2 then 1 else 0) ≤ burst :=
  (take_tokens burst rate _ now).trans_le (min_le_left _ _)

variable [IsStrictOrderedRing 𝕜]

theorem Sound.take (hrate : 0 ≤ rate) (h : Sound burst b) (hnow : b.since ≤ now) :
    Sound burst (take burst rate b now).1 := by
  have hgain : 0 ≤ (now - b.since) * rate := mul_nonneg (sub_nonneg.mpr hnow) hrate
  have hlevel : 0 ≤ b.refilled burst rate now :=
    le_min (h.nonneg.trans h.le) (add_nonneg h.nonneg hgain)
  have hle : b.refilled burst rate now ≤ burst := min_le_left _ _
  unfold Bucket.take
  dsimp only
  split
  next hone => exact ⟨sub_nonneg.mpr hone, (sub_le_self _ zero_le_one).trans hle⟩
  next => exact ⟨hlevel, hle⟩

theorem Sound.takeFrom {o : Option (Bucket 𝕜)} (hburst : 0 ≤ burst) (hrate : 0 ≤ rate)
    (h : ∀ b ∈ o, Sound burst b ∧ b.since ≤ now) : Sound burst (takeFrom burst rate o now).1 := by
  cases o with
  | none => exact (Sound.full hburst).take hrate le_rfl
  | some b =>
    obtain ⟨hb, hsince⟩ := h b rfl
    exact hb.take hrate hsince

/-! ## A bucket unasked for long -/

theorem refilled_of_full_again (hrate : 0 < rate) (h : Sound burst b)
    (hlong : b.since + burst / rate ≤ now) : b.refilled burst rate now = burst := by
  have hgain : burst ≤ (now - b.since) * rate := by
    rw [← div_le_iff₀ hrate]
    linarith
  exact min_eq_left (hgain.trans (le_add_of_nonneg_left h.nonneg))

/-- **A bucket unasked for `burst / rate` is as good as new.** -/
theorem take_of_full_again (hrate : 0 < rate) (h : Sound burst b) (hlong : b.since + burst / rate ≤ now) :
    take burst rate b now = take burst rate (full burst now) now := by
  simp only [take, refilled_of_full_again hrate h hlong, refilled_full]

/-! ## What a bucket gives in a window -/

/-- By a time `e` a bucket gives what it held and what it gained. -/
theorem given_until {times : List 𝕜} (hrate : 0 ≤ rate) (h : Sound burst b)
    (hsorted : (b.since :: times).Pairwise (· ≤ ·)) (he : b.since ≤ e) :
    (given (fun t => decide (t ≤ e)) (replies burst rate (some b) times) : 𝕜) ≤
      b.tokens + rate * (e - b.since) := by
  induction times generalizing b with
  | nil =>
    have hgain : 0 ≤ rate * (e - b.since) := mul_nonneg hrate (sub_nonneg.mpr he)
    simpa only [given, replies, List.countP_nil, Nat.cast_zero] using add_nonneg h.nonneg hgain
  | cons now rest ih =>
    obtain ⟨hfirst, hrest⟩ := List.pairwise_cons.mp hsorted
    have hnow : b.since ≤ now := hfirst now List.mem_cons_self
    have hsince : (take burst rate b now).1.since = now := take_since
    have htokens := take_tokens burst rate b now
    rw [replies, given_cons, takeFrom, Option.getD_some]
    by_cases hend : now ≤ e
    · have hafter := ih (h.take hrate hnow) (hsince.symm ▸ hrest) (hsince.trans_le hend)
      have hlevel : b.refilled burst rate now ≤ b.tokens + (now - b.since) * rate := min_le_right _ _
      rw [hsince] at hafter
      simp only [hend, decide_true, Bool.and_true, Nat.cast_add, Nat.cast_ite, Nat.cast_one, Nat.cast_zero]
      linarith
    · -- the rest is later still
      have hlate : given (fun t => decide (t ≤ e)) (replies burst rate (some (take burst rate b now).1) rest) = 0 :=
        given_eq_zero fun reply hreply =>
          decide_eq_false fun hle =>
            hend (((List.pairwise_cons.mp hrest).1 _ (mem_replies hreply)).trans hle)
      have hgain : 0 ≤ rate * (e - b.since) := mul_nonneg hrate (sub_nonneg.mpr he)
      simp only [hlate, hend, decide_false, Bool.and_false, Bool.false_eq_true, if_false, Nat.cast_zero, add_zero]
      exact add_nonneg h.nonneg hgain

/-- **The window bound.** -/
theorem window_bound {o : Option (Bucket 𝕜)} {times : List 𝕜} (hburst : 0 ≤ burst) (hrate : 0 ≤ rate)
    (h : ∀ b ∈ o, Sound burst b ∧ ∀ t ∈ times, b.since ≤ t) (hsorted : times.Pairwise (· ≤ ·)) (hwindow : a ≤ e) :
    (given (fun t => decide (a ≤ t ∧ t ≤ e)) (replies burst rate o times) : 𝕜) ≤ burst + rate * (e - a) := by
  have hbound : 0 ≤ burst + rate * (e - a) := add_nonneg hburst (mul_nonneg hrate (sub_nonneg.mpr hwindow))
  induction times generalizing o with
  | nil => simpa only [given, replies, List.countP_nil, Nat.cast_zero] using hbound
  | cons now rest ih =>
    obtain ⟨hfirst, hrest⟩ := List.pairwise_cons.mp hsorted
    have hrest' : (now :: rest).Pairwise (· ≤ ·) := hsorted
    have hsound : Sound burst (takeFrom burst rate o now).1 :=
      .takeFrom hburst hrate fun b hb => ⟨(h b hb).1, (h b hb).2 now List.mem_cons_self⟩
    have hsince : (takeFrom burst rate o now).1.since = now := takeFrom_since
    rw [replies, given_cons]
    by_cases hstart : a ≤ now
    · have hlater : ∀ reply ∈ replies burst rate (some (takeFrom burst rate o now).1) rest, now ≤ reply.1 :=
        fun reply hreply => (List.pairwise_cons.mp hrest').1 _ (mem_replies hreply)
      by_cases hend : now ≤ e
      · have hsame : given (fun t => decide (a ≤ t ∧ t ≤ e))
              (replies burst rate (some (takeFrom burst rate o now).1) rest) =
            given (fun t => decide (t ≤ e)) (replies burst rate (some (takeFrom burst rate o now).1) rest) :=
          given_congr fun reply hreply => by
            rw [decide_eq_decide, and_iff_right (hstart.trans (hlater reply hreply))]
        have hafter := given_until hrate hsound (hsince.symm ▸ hrest') (hsince.trans_le hend)
        have htokens : _ ≤ burst := takeFrom_tokens rate o now
        have hgain : rate * (e - now) ≤ rate * (e - a) := by gcongr
        rw [hsince] at hafter
        simp only [hsame, hstart, hend, and_self, decide_true, Bool.and_true, Nat.cast_add, Nat.cast_ite,
          Nat.cast_one, Nat.cast_zero]
        linarith
      · have hlate : given (fun t => decide (a ≤ t ∧ t ≤ e))
            (replies burst rate (some (takeFrom burst rate o now).1) rest) = 0 :=
          given_eq_zero fun reply hreply =>
            decide_eq_false fun hle => hend ((hlater reply hreply).trans hle.2)
        simpa only [hlate, hend, and_false, decide_false, Bool.and_false, Bool.false_eq_true, if_false,
          Nat.add_zero, Nat.cast_zero] using hbound
    · have hafter := ih (o := some (takeFrom burst rate o now).1)
        (by
          rintro _ ⟨⟩
          exact ⟨hsound, fun t ht => hsince.trans_le (hfirst t ht)⟩) hrest
      simpa only [hstart, false_and, decide_false, Bool.and_false, Bool.false_eq_true, if_false,
        Nat.add_zero] using hafter

end Bucket

end Stoop.Lib

import SilverNetwork.Foundations.RetryTable

/-! How long a request stays in a table that nobody but the sweeps touches. Sweeps that come more
than the timeout after one another find it expired each time, and give it up once it has been
retried as often as it may be. -/

namespace SilverNetwork

namespace RetryTable

open Reissuable

variable {ρ : Type} [Reissuable ρ] {limit timeout : ℕ}

/-- What a sweep makes of an entry, by the clock at its start and when it reissues the entry. -/
def sweptEntry (limit timeout : ℕ) (entry : Option ρ) (clock : ℕ × ℕ) : Option ρ :=
  entry.bind fun r => if Expired timeout clock.1 r then treat limit clock.2 r else some r

/-- The first sweep comes more than the timeout after the request was sent, and each later one more
than the timeout after the sweep before it. -/
def Paced (timeout : ℕ) : ℕ → List (ℕ × ℕ) → Prop
  | _, [] => True
  | sentAt, (now, reissuedAt) :: clocks => sentAt + timeout < now ∧ Paced timeout reissuedAt clocks

theorem sweptEntry_none (clocks : List (ℕ × ℕ)) :
    clocks.foldl (sweptEntry limit timeout) (none : Option ρ) = none := by
  induction clocks with
  | nil => rfl
  | cons clock clocks ih => exact ih

theorem sweptEntry_of_expired {r : ρ} {clock : ℕ × ℕ} (h : requestedAt r + timeout < clock.1) :
    sweptEntry limit timeout (some r) clock = treat limit clock.2 r := by
  have hexpired : Expired timeout clock.1 r := by
    unfold Expired
    omega
  rw [sweptEntry, Option.bind_some, if_pos hexpired]

/-- A sweep that gives nothing up keeps every entry, reissued if it has expired. -/
theorem sweep_lookup_of_kept {κ : Type} [DecidableEq κ] {now : ℕ} {reissuedAt : κ → ℕ}
    {order : Enumeration (Sigma fun _ : κ => ρ)} {table : HashMap κ ρ}
    (hkept : (sweep limit timeout now reissuedAt order table).abandoned = []) {k : κ} {r : ρ}
    (hl : table.lookup k = some r) :
    ∃ r', (sweep limit timeout now reissuedAt order table).table.lookup k = some r' ∧
      sweptEntry limit timeout (some r) (now, reissuedAt k) = some r' := by
  have hswept : (sweep limit timeout now reissuedAt order table).table.lookup k =
      sweptEntry limit timeout (table.lookup k) (now, reissuedAt k) :=
    sweep_lookup limit timeout now reissuedAt order table k
  rw [hl] at hswept
  cases sweep_lookup_of_abandoned_eq_nil hkept hl with
  | inl hlookup => exact ⟨_, hlookup, hswept.symm.trans hlookup⟩
  | inr hlookup => exact ⟨_, hlookup, hswept.symm.trans hlookup⟩

/-- A request does not outlive as many sweeps as attempts are left to it. -/
theorem foldl_sweptEntry_eq_none {r : ρ} {clocks : List (ℕ × ℕ)}
    (hpaced : Paced timeout (requestedAt r) clocks) (hmany : limit - retries r < clocks.length) :
    clocks.foldl (sweptEntry limit timeout) (some r) = none := by
  induction clocks generalizing r with
  | nil => cases hmany
  | cons clock clocks ih =>
      obtain ⟨hlate, hrest⟩ := hpaced
      rw [List.foldl_cons, sweptEntry_of_expired hlate, treat]
      by_cases hretries : retries r < limit
      · rw [if_pos hretries]
        apply ih
        · rw [requestedAt_reissue]
          exact hrest
        · rw [retries_reissue]
          rw [List.length_cons] at hmany
          omega
      · rw [if_neg hretries, sweptEntry_none]

end RetryTable

end SilverNetwork

import Mathlib.Data.Nat.Basic

/-!
# Waking a party for every unit that becomes available

Parties share units of a resource and sleep when there is none. Whoever puts a unit back
wakes one sleeper afterwards; between the two steps, and from its awakening until it looks
again, a party is alert. Sleepers may also wake by themselves, and newcomers may take a unit
before the party it was put back for. As long as there is a sleeper, every available unit
has an alert party.
-/

namespace Wakeups

/-- How many units are available, and how many parties sleep or are alert. -/
structure Counts where
  available : Nat
  asleep : Nat
  alert : Nat

inductive Step (c c' : Counts) : Prop
  -- A unit goes to a newcomer, or to an alert party.
  | take (hAvailable : c.available = c'.available + 1) (hAsleep : c'.asleep = c.asleep)
      (hAlert : c.alert = c'.alert ∨ c.alert = c'.alert + 1)
  -- Where nothing is available, a party may go to sleep or give up.
  | settle (hAvailable : c'.available = 0)
  | put (hAvailable : c'.available = c.available + 1) (hAsleep : c'.asleep = c.asleep)
      (hAlert : c'.alert = c.alert + 1)
  -- The awakening moves the alert from one party to the other, unless nobody sleeps.
  | notify (hAvailable : c'.available = c.available) (hAsleep : c.asleep = c'.asleep + 1)
      (hAlert : c'.alert = c.alert)
  | unheard (hAsleep : c'.asleep = 0)
  | rouse (hAvailable : c'.available = c.available) (hAsleep : c.asleep = c'.asleep + 1)
      (hAlert : c'.alert = c.alert + 1)
  | idle (hAvailable : c'.available = c.available) (hAsleep : c'.asleep = c.asleep)
      (hAlert : c'.alert = c.alert)

/-- No unit lies there unnoticed while a party sleeps. -/
def Counts.Covered (c : Counts) : Prop := 0 < c.asleep → c.available ≤ c.alert

theorem Counts.Covered.step {c c' : Counts} (h : c.Covered) (hStep : Step c c') : c'.Covered := by
  intro hAsleep'
  cases hStep with
  | take hAvailable hAsleep hAlert =>
    have hBefore := h (hAsleep ▸ hAsleep')
    omega
  | settle hAvailable => exact hAvailable ▸ Nat.zero_le _
  | put hAvailable hAsleep hAlert =>
    have hBefore := h (hAsleep ▸ hAsleep')
    omega
  | notify hAvailable hAsleep hAlert =>
    have hBefore := h (hAsleep ▸ Nat.succ_pos _)
    omega
  | unheard hAsleep => exact absurd hAsleep' (hAsleep ▸ Nat.lt_irrefl 0)
  | rouse hAvailable hAsleep hAlert =>
    have hBefore := h (hAsleep ▸ Nat.succ_pos _)
    omega
  | idle hAvailable hAsleep hAlert =>
    have hBefore := h (hAsleep ▸ hAsleep')
    omega

end Wakeups

import RedRouter.Lib.JsString
import RedRouter.Lib.Separators

/-!
# Quota dimensions

A pool is limited in one or more dimensions.  A dimension is a unit over a
window, and a dimension of a pool is named by a `DimensionKey`.
-/

namespace RedRouter.Quota

inductive QuotaUnit where
  | percent
  | requests
  | tokens
  | usd
deriving DecidableEq

inductive QuotaWindow where
  | fiveHours
  | hourly
  | daily
  | weekly
  | monthly
deriving DecidableEq

def QuotaUnit.text : QuotaUnit → JsString
  | .percent => js "percent"
  | .requests => js "requests"
  | .tokens => js "tokens"
  | .usd => js "usd"

def QuotaWindow.text : QuotaWindow → JsString
  | .fiveHours => js "5h"
  | .hourly => js "hourly"
  | .daily => js "daily"
  | .weekly => js "weekly"
  | .monthly => js "monthly"

structure DimensionKey where
  poolId : JsString
  unit : QuotaUnit
  window : QuotaWindow
deriving DecidableEq

def windowMs : QuotaWindow → Nat
  | .hourly => 60 * 60 * 1000
  | .fiveHours => 5 * 60 * 60 * 1000
  | .daily => 24 * 60 * 60 * 1000
  | .weekly => 7 * 24 * 60 * 60 * 1000
  | .monthly => 30 * 24 * 60 * 60 * 1000

theorem windowMs_pos (w : QuotaWindow) : 0 < windowMs w := by
  cases w <;> decide

def dimensionKeyToString (k : DimensionKey) : JsString :=
  k.poolId ++ js ":" ++ k.unit.text ++ js ":" ++ k.window.text

theorem QuotaUnit.text_inj {u u' : QuotaUnit} (h : u.text = u'.text) : u = u' := by
  revert h
  cases u <;> cases u' <;> decide

theorem QuotaWindow.text_inj {w w' : QuotaWindow} (h : w.text = w'.text) : w = w' := by
  revert h
  cases w <;> cases w' <;> decide

/-- Different dimensions have different texts: neither the unit nor the window
holds a colon. -/
theorem dimensionKeyToString_inj {k k' : DimensionKey}
    (h : dimensionKeyToString k = dimensionKeyToString k') : k = k' := by
  have hcolon : js ":" = [RedRouter.unit ':'] := by decide
  have hunit : ∀ u : QuotaUnit, RedRouter.unit ':' ∉ u.text := by
    intro u
    cases u <;> decide
  have hwindow : ∀ w : QuotaWindow, RedRouter.unit ':' ∉ w.text := by
    intro w
    cases w <;> decide
  have htext : ∀ k : DimensionKey, dimensionKeyToString k =
      (k.poolId ++ ([RedRouter.unit ':'] ++ k.unit.text)) ++
        ([RedRouter.unit ':'] ++ k.window.text) := by
    intro k
    simp [dimensionKeyToString, hcolon]
  rw [htext, htext] at h
  obtain ⟨hbefore, hwindows⟩ :=
    Separators.separated_inj_last (hwindow k.window) (hwindow k'.window) h
  obtain ⟨hpool, hunits⟩ := Separators.separated_inj_last (hunit k.unit) (hunit k'.unit) hbefore
  obtain ⟨pool, u, w⟩ := k
  obtain ⟨pool', u', w'⟩ := k'
  obtain rfl : pool = pool' := hpool
  obtain rfl := QuotaUnit.text_inj hunits
  obtain rfl := QuotaWindow.text_inj hwindows
  rfl

end RedRouter.Quota

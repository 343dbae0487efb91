import RocksQueue.Lib.IdMap
import RocksQueue.Numbers
import RocksQueue.System

/-! # Baselines

`baseline.rs`: the arrival rate that is usual for a tenant, and the threshold above which a rate counts as a
spike. The threshold grows when a drift detector confirms that the usual rate has moved. -/

namespace RocksQueue

structure CusumState (R : Type) where
  cusum : R
  hThreshold : R
  kSlack : R
  consecutiveCalm : Nat

structure BaselinePromotion (R : Type) where
  tenantId : String
  oldThreshold : R
  newThreshold : R
  newBaseline : R
  promotedAtMs : Nat

structure TenantBaseline (R : Type) where
  tenantId : String
  shortEma : R
  longEma : R
  rollingPeak : R
  spikeThreshold : R
  cusum : CusumState R
  promotions : List (BaselinePromotion R)
  lastUpdatedMs : Nat
  peakWindow : List (Nat × R)

/-- Each baseline is filed under its tenant's id. -/
abbrev BaselineRegistry (R : Type) := IdMap fun b : TenantBaseline R => b.tenantId

variable {R : Type} [F64 R]

namespace CusumState

def new (baseline : R) : CusumState R where
  cusum := 0.0
  hThreshold := 50.0
  kSlack := baseline * 0.3
  consecutiveCalm := 0

/-- Whether the drift is confirmed comes second. -/
def update (c : CusumState R) (x mu : R) : CusumState R × Bool :=
  let cusum := F64.max (c.cusum + (x - mu - c.kSlack)) 0.0
  if c.hThreshold < cusum then ({ c with cusum := cusum }, true)
  else ({ c with cusum := cusum * 0.9, consecutiveCalm := (c.consecutiveCalm + 1) % u32Size }, false)

def reset (c : CusumState R) (newBaseline : R) : CusumState R :=
  { c with cusum := 0.0, kSlack := newBaseline * 0.3, consecutiveCalm := 0 }

end CusumState

/-- The fold of `f64::max` from negative infinity, and then `max(0.0)`. -/
def rollingPeakOf : List R → R
  | [] => 0.0
  | r :: rest => F64.max (rest.foldl F64.max r) 0.0

/-- The window of the rolling peak, in milliseconds. -/
def peakWindowMs : Nat := 5 * 60 * 1000

/-- How many promotions are kept. -/
def maxPromotions : Nat := 20

namespace TenantBaseline

def new (tenantId : String) (initialRate : R) (now : Nat) : TenantBaseline R where
  tenantId := tenantId
  shortEma := initialRate
  longEma := initialRate
  rollingPeak := initialRate
  spikeThreshold := F64.max (initialRate * 3.0) 10.0
  cusum := .new initialRate
  promotions := []
  lastUpdatedMs := now
  peakWindow := []

/-- Steps 1 to 3 of `update`: the two averages and the rolling peak. -/
def observe (b : TenantBaseline R) (arrivalRate shortAlpha longAlpha : R) (now : Nat) : TenantBaseline R :=
  let window := (b.peakWindow ++ [(now, arrivalRate)]).filter fun e => now - peakWindowMs ≤ e.1
  { b with
    shortEma := shortAlpha * arrivalRate + (1.0 - shortAlpha) * b.shortEma
    longEma := longAlpha * arrivalRate + (1.0 - longAlpha) * b.longEma
    peakWindow := window
    rollingPeak := rollingPeakOf (window.map Prod.snd) }

/-- Step 5 of `update`, once the drift is confirmed. -/
def promote (b : TenantBaseline R) (spikeFactor : R) (now : Nat) : TenantBaseline R × Option (BaselinePromotion R) :=
  let newBaseline := b.rollingPeak * 0.8
  let newThreshold := newBaseline * spikeFactor
  if b.spikeThreshold * 1.05 < newThreshold then
    let promotion : BaselinePromotion R := ⟨b.tenantId, b.spikeThreshold, newThreshold, newBaseline, now⟩
    let promotions := b.promotions ++ [promotion]
    ({ b with
        spikeThreshold := newThreshold
        longEma := newBaseline
        cusum := b.cusum.reset newBaseline
        promotions := if maxPromotions < promotions.length then promotions.drop 1 else promotions },
      some promotion)
  else
    -- A false alarm: the detector starts over, and the call goes on to its end.
    ({ b with cusum := b.cusum.reset b.longEma, lastUpdatedMs := now }, none)

def update (b : TenantBaseline R) (arrivalRate shortAlpha longAlpha spikeFactor : R) (now : Nat) :
    TenantBaseline R × Option (BaselinePromotion R) :=
  let b' := b.observe arrivalRate shortAlpha longAlpha now
  let (cusum, drift) := b'.cusum.update b'.shortEma b'.longEma
  if drift then { b' with cusum := cusum }.promote spikeFactor now
  else ({ b' with cusum := cusum, lastUpdatedMs := now }, none)

/-- The tenant's baseline as a restart or a registration restores it. -/
def restored (tenantId : String) (record : BaselineRecord R) (now : Nat) : TenantBaseline R :=
  { TenantBaseline.new tenantId record.longEma now with
    shortEma := record.shortEma
    longEma := record.longEma
    spikeThreshold := record.spikeThreshold }

theorem update_tenantId (b : TenantBaseline R) {rate shortAlpha longAlpha spikeFactor : R} {now : Nat} :
    (b.update rate shortAlpha longAlpha spikeFactor now).1.tenantId = b.tenantId := by
  simp only [update, promote]
  split
  · split <;> rfl
  · rfl

end TenantBaseline

namespace BaselineRegistry

/-- `record` is what `load_baseline` returned. -/
def register (m : BaselineRegistry R) (tenantId : String) (initialRate : R) (record : Option (BaselineRecord R))
    (now : Nat) : BaselineRegistry R :=
  match record with
  | some record => m.insert (.restored tenantId record now)
  | none => m.insert (.new tenantId initialRate now)

def deregister (m : BaselineRegistry R) (tenantId : String) : BaselineRegistry R := m.erase tenantId

def update (m : BaselineRegistry R) (tenantId : String) (arrivalRate : R) (now : Nat) :
    BaselineRegistry R × Option (BaselinePromotion R) :=
  (m.modify tenantId (fun b => (b.update arrivalRate 0.2 0.01 3.0 now).1) fun b h =>
      (TenantBaseline.update_tenantId b).trans h,
    (m.lookup tenantId).bind fun b => (b.update arrivalRate 0.2 0.01 3.0 now).2)

def isSpike (m : BaselineRegistry R) (tenantId : String) (rate : R) : Bool :=
  match m.lookup tenantId with
  | none => false
  | some b => b.spikeThreshold < rate

def spikeThreshold (m : BaselineRegistry R) (tenantId : String) : Option R :=
  (m.lookup tenantId).map fun b => b.spikeThreshold

def snapshot (m : BaselineRegistry R) (tenantId : String) : Option (TenantBaseline R) := m.lookup tenantId

def allSnapshots (m : BaselineRegistry R) : List (TenantBaseline R) := m.values

end BaselineRegistry

end RocksQueue

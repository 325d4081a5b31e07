import Mathlib.Algebra.Order.BigOperators.Group.Finset
import Mathlib.Data.BitVec
import Rudis.Lib.Except
import Rudis.Lib.Runs
import Rudis.Lib.Tx

/-!
# `Rudis.Spec.Primitives`: the types every contract shares

The unsigned integers of the source are naturals. An operator that can leave its range is
spelled out: `wrappingAdd 32 a b` is the `+` of `u32` in a release build (the workspace turns no
overflow checks on) and of `U256`, `checkedAdd 64 a b` is `u64::checked_add`. Addresses, hashes
and keys are bit vectors of their width. A `Mapping` is a total function, zero where nothing was
written, and a write is `Function.update`.

`Call σ` is a precompile call over the storage `σ`: it can fail with a `PrecompileError`, and
the writes of a failed call stay unless a checkpoint undoes them.
-/

namespace Rudis

export Except (bind_eq_error bind_eq_ok laws mapError_eq_ok mapM_eq_ok map_eq_ok okOr okOr_eq_ok
  pure_eq_ok throwIf throwIf_eq_ok)
export Function (update update_apply update_comm update_eq_self update_idem update_of_ne update_self)
export Nat (exists_eq_succ_of_ne_zero mod_eq_of_lt mod_le mod_lt)
export Tx (Keeps Ok attempt checkpoint failIf modify ofExcept query reads rules when zoom)

/-- A write that keeps a field keeps it everywhere. -/
theorem field_update {α β γ : Type} [DecidableEq α] {f : α → β} {a : α} {b : β} (field : β → γ)
    (h : field b = field (f a)) (x : α) : field (update f a b x) = field (f x) := by
  rw [update_apply]
  split
  · rename_i hx
    rw [hx, h]
  · rfl

/-- A 20-byte account address. -/
abbrev Address := BitVec 160

/-- A 32-byte word. -/
abbrev B256 := BitVec 256

variable (w a b : Nat)

/-- A `u32`, `u64` or `U256` addition that wraps at `2 ^ w`. -/
def wrappingAdd : Nat := (a + b) % 2 ^ w

/-- A subtraction that wraps at `2 ^ w`. -/
def wrappingSub : Nat := (a + 2 ^ w - b % 2 ^ w) % 2 ^ w

/-- A multiplication that wraps at `2 ^ w`. -/
def wrappingMul : Nat := (a * b) % 2 ^ w

/-- `checked_add` of a `w`-bit integer. -/
def checkedAdd : Option Nat := if a + b < 2 ^ w then some (a + b) else none

def checkedSub (a b : Nat) : Option Nat := if b ≤ a then some (a - b) else none

/-- `checked_mul` of a `w`-bit integer. -/
def checkedMul : Option Nat := if a * b < 2 ^ w then some (a * b) else none

/-- `saturating_add` of a `w`-bit integer. -/
def saturatingAdd : Nat := min (a + b) (2 ^ w - 1)

/-- `saturating_mul` of a `w`-bit integer. -/
def saturatingMul : Nat := min (a * b) (2 ^ w - 1)

/-- `div_ceil` of an unsigned integer. -/
def divCeil (a b : Nat) : Nat := (a + b - 1) / b

theorem wrappingAdd_eq {w a b : Nat} (h : a + b < 2 ^ w) : wrappingAdd w a b = a + b :=
  mod_eq_of_lt h

theorem wrappingAdd_lt : wrappingAdd w a b < 2 ^ w := mod_lt _ (Nat.two_pow_pos w)

/-- A running sum that wraps is the sum in its word. -/
theorem foldl_wrappingAdd_mod {w : Nat} {l : List Nat} {acc : Nat} (h : acc < 2 ^ w) :
    l.foldl (wrappingAdd w) acc = (acc + l.sum) % 2 ^ w := by
  induction l generalizing acc with
  | nil => exact (mod_eq_of_lt h).symm
  | cons x l ih =>
    rw [List.foldl_cons, ih (wrappingAdd_lt ..), wrappingAdd, Nat.mod_add_mod, List.sum_cons,
      add_assoc]

theorem foldl_wrappingAdd {w : Nat} {l : List Nat} {acc : Nat} (h : acc + l.sum < 2 ^ w) :
    l.foldl (wrappingAdd w) acc = acc + l.sum := by
  rw [foldl_wrappingAdd_mod (by omega), mod_eq_of_lt h]

theorem wrappingMul_eq {w a b : Nat} (h : a * b < 2 ^ w) : wrappingMul w a b = a * b :=
  mod_eq_of_lt h

theorem wrappingSub_eq {w a b : Nat} (hab : b ≤ a) (ha : a < 2 ^ w) :
    wrappingSub w a b = a - b := by
  unfold wrappingSub
  rw [mod_eq_of_lt (lt_of_le_of_lt hab ha)]
  have h : a + 2 ^ w - b = (a - b) + 2 ^ w := by omega
  rw [h, Nat.add_mod_right, mod_eq_of_lt (by omega)]

theorem checkedAdd_eq_some {w a b c : Nat} :
    checkedAdd w a b = some c ↔ a + b < 2 ^ w ∧ c = a + b := by
  unfold checkedAdd
  split
  · simp [*, eq_comm]
  · simp [*]

/-- A running sum that is checked at every step succeeds when the sum fits. -/
theorem foldlM_checkedAdd {ε α : Type} {w : Nat} (f : α → Nat) (e : α → ε) (l : List α)
    {acc s : Nat} (h : acc < 2 ^ w) :
    l.foldlM (fun sum x => Except.okOr (checkedAdd w sum (f x)) (e x)) acc = .ok s ↔
      acc + (l.map f).sum < 2 ^ w ∧ s = acc + (l.map f).sum := by
  induction l generalizing acc with
  | nil => simp [h]
  | cons x l ih =>
    simp only [List.foldlM_cons, Except.laws, checkedAdd_eq_some, List.map_cons, List.sum_cons,
      ← add_assoc]
    constructor
    · rintro ⟨_, ⟨hfit, rfl⟩, hrest⟩
      exact (ih hfit).mp hrest
    · rintro ⟨hfit, rfl⟩
      have hfit' : acc + f x < 2 ^ w := by omega
      exact ⟨_, ⟨hfit', rfl⟩, (ih hfit').mpr ⟨hfit, rfl⟩⟩

theorem checkedSub_eq_some {a b c : Nat} : checkedSub a b = some c ↔ b ≤ a ∧ c = a - b := by
  unfold checkedSub
  split
  · simp [*, eq_comm]
  · simp [*]

theorem checkedMul_eq_some {w a b c : Nat} :
    checkedMul w a b = some c ↔ a * b < 2 ^ w ∧ c = a * b := by
  unfold checkedMul
  split
  · simp [*, eq_comm]
  · simp [*]

/-- How a precompile call fails. -/
inductive PrecompileError where
  /-- Out of gas: what an unmetered endless walk of a storage list ends in. -/
  | outOfGas
  /-- A storage or balance operation of the provider failed. -/
  | storage (message : String)
  /-- A body or body index violated the invariants of its repository. -/
  | bodyReadCorruption (message : String)
  /-- A user-triggerable error. -/
  | revert (message : String)
  /-- A state the contract declares corrupt. -/
  | fatal (message : String)
  deriving DecidableEq

def PrecompileError.text : PrecompileError → String
  | .outOfGas => "out of gas"
  | .storage message => "storage error: " ++ message
  | .bodyReadCorruption message => "body read corruption: " ++ message
  | .revert message => "revert: " ++ message
  | .fatal message => "fatal: " ++ message

/-- A computation that can fail with a `PrecompileError`. -/
abbrev Result := Except PrecompileError

/-- A precompile call over the storage `σ`. -/
abbrev Call (σ : Type) := Tx PrecompileError σ

abbrev revert {σ α : Type} (message : String) : Call σ α := Tx.fail (.revert message)

abbrev fatal {σ α : Type} (message : String) : Call σ α := Tx.fail (.fatal message)

/-- What a call sees of the block it runs in. -/
structure BlockEnv where
  blockNumber : Nat
  /-- Timestamp of the block, in seconds. -/
  timestamp : Nat
  chainId : Nat
  genesisHash : B256

/-- The Staking precompile's account. -/
def stakingAddress : Address := 0xEE02#160

/-- Who can send a call: the EVM gives no call the zero address or the Staking precompile's own
address as its sender. -/
structure Sender where
  /-- The calling account. -/
  address : Address
  /-- No key signs for the zero address. -/
  ne_zero : address ≠ 0
  /-- The Staking precompile sends no calls. -/
  ne_staking : address ≠ stakingAddress

/-- Big-endian bytes of a number, in `n` bytes. -/
def beBytes (n x : Nat) : List UInt8 :=
  (List.range n).map fun i => UInt8.ofNat (x / 256 ^ (n - 1 - i))

/-! ### Native value -/

/-- The Rewards precompile's account. -/
def rewardsAddress : Address := 0xEE03#160

/-- `transfer_balance` on the native balances. -/
def transferBalance (src dst : Address) (amount : Nat) : Call (Address → Nat) Unit := do
  let balance ← Tx.reads (· src)
  Tx.failIf (balance < amount) (.fatal "insufficient balance for transfer")
  Tx.modify (Function.update · src (balance - amount))
  let received ← Tx.reads (· dst)
  Tx.failIf (received + amount ≥ 2 ^ 256) (.fatal "insufficient balance for transfer")
  Tx.modify (Function.update · dst (received + amount))

/-- Balances after a transfer. -/
def moveBalance (balance : Address → Nat) (src dst : Address) (amount : Nat) : Address → Nat :=
  let paid := update balance src (balance src - amount)
  update paid dst (paid dst + amount)

theorem ok_transferBalance {src dst : Address} {amount : Nat} {balance balance' : Address → Nat}
    {u : Unit} :
    Ok (transferBalance src dst amount) balance u balance' ↔
      amount ≤ balance src ∧ update balance src (balance src - amount) dst + amount < 2 ^ 256 ∧
        balance' = moveBalance balance src dst amount := by
  simp only [transferBalance, rules, not_lt, ge_iff_le, not_le, moveBalance]

/-- `decrease_balance` on the native balances: burns. -/
def decreaseBalance (address : Address) (amount : Nat) : Call (Address → Nat) Unit := do
  let balance ← Tx.reads (· address)
  Tx.failIf (balance < amount) (.fatal "insufficient balance for burn")
  Tx.modify (Function.update · address (balance - amount))

/-- `increase_balance` on the native balances: mints. -/
def increaseBalance (address : Address) (amount : Nat) : Call (Address → Nat) Unit := do
  let balance ← Tx.reads (· address)
  Tx.failIf (balance + amount ≥ 2 ^ 256) (.fatal "balance overflow")
  Tx.modify (Function.update · address (balance + amount))

/-! ### Units -/

/-- The six-decimal fixed-point scale. -/
def scale1e6 : Nat := 1000000

/-- Native atomic units in one six-decimal protocol unit. -/
def nativeUnitsPerProtocolUnit : Nat := 10 ^ 12

/-- A six-decimal protocol amount in native units. -/
def checkedProtocolToNative (amount : Nat) : Option Nat :=
  checkedMul 256 amount nativeUnitsPerProtocolUnit

/-- A native amount in six-decimal protocol units, rounded down. -/
def nativeToProtocolFloor (amount : Nat) : Nat := amount / nativeUnitsPerProtocolUnit

/-! ### Scaled arithmetic -/

/-- `floor(numerator * multiplier / denominator)`. -/
def checkedMulDivFloor (numerator multiplier denominator : Nat) : Result Nat := do
  Except.throwIf (denominator = 0) (.revert "scaled_math: division by zero")
  let product ← Except.okOr (checkedMul 256 numerator multiplier)
    (.revert "scaled_math: multiplication overflow")
  pure (product / denominator)

theorem checkedMulDivFloor_eq_ok {n m d q : Nat} :
    checkedMulDivFloor n m d = .ok q ↔ d ≠ 0 ∧ n * m < 2 ^ 256 ∧ q = n * m / d := by
  simp only [checkedMulDivFloor, Except.bind_eq_ok, Except.throwIf_eq_ok, Except.okOr_eq_ok,
    Except.pure_eq_ok, checkedMul_eq_some]
  constructor
  · rintro ⟨-, hd, p, ⟨hlt, rfl⟩, rfl⟩
    exact ⟨hd, hlt, rfl⟩
  · rintro ⟨hd, hlt, rfl⟩
    exact ⟨(), hd, _, ⟨hlt, rfl⟩, rfl⟩

/-! ### UTC dates -/

/-- A worldwide day: a `u32` that reads `yyyymmdd`. -/
abbrev WorldwideDay := Fin (2 ^ 32)

instance (priority := 2000) neZero_u32 : NeZero (2 ^ 32) := ⟨by decide⟩

def daysInMonth (year month : Nat) : Nat :=
  if month = 2 then
    if year % 4 = 0 ∧ (year % 100 ≠ 0 ∨ year % 400 = 0) then 29 else 28
  else if month = 4 ∨ month = 6 ∨ month = 9 ∨ month = 11 then 30
  else 31

/-- The number is a calendar date `yyyymmdd`. -/
def isValidDay (day : Nat) : Bool :=
  let year := day / 10000
  let month := day / 100 % 100
  let dayOfMonth := day % 100
  year ≤ 9999 && 1 ≤ month && month ≤ 12 && 1 ≤ dayOfMonth && dayOfMonth ≤ daysInMonth year month

def secondsPerDay : Nat := 86400

/-- The `yyyymmdd` key of a number of days since the epoch, a `u32`. -/
def civilDateFromDays (daysSinceEpoch : Nat) : Nat :=
  let z := daysSinceEpoch + 719468
  let era := z / 146097
  let doe := z - era * 146097
  let yoe := (doe - doe / 1460 + doe / 36524 - doe / 146096) / 365
  let y := yoe + era * 400
  let doy := doe - (365 * yoe + yoe / 4 - yoe / 100)
  let mp := (5 * doy + 2) / 153
  let d := doy - (153 * mp + 2) / 5 + 1
  let m := if mp < 10 then mp + 3 else mp - 9
  let y := if m ≤ 2 then y + 1 else y
  (y % 2 ^ 32 * 10000 + m * 100 + d) % 2 ^ 32

/-- The UTC day of a timestamp, as a `yyyymmdd` key. -/
def timestampToDateKey (timestamp : Nat) : Nat := civilDateFromDays (timestamp / secondsPerDay)

/-- Days since the epoch of a civil date from March 0000 on. A date before 1970 gives zero here, where
the unsigned subtraction of the source wraps. -/
def daysFromCivil (year month day : Nat) : Nat :=
  let year := if month ≤ 2 then year - 1 else year
  let era := year / 400
  let yoe := year - era * 400
  let mp := if month > 2 then month - 3 else month + 9
  let doy := (153 * mp + 2) / 5 + day - 1
  let doe := yoe * 365 + yoe / 4 - yoe / 100 + doy
  era * 146097 + doe - 719468

/-- Midnight UTC of a day key; zero for a key before 1970, where the source wraps. -/
def dateKeyToUtcTimestamp (dateKey : Nat) : Nat :=
  daysFromCivil (dateKey / 10000) (dateKey / 100 % 100) (dateKey % 100) * secondsPerDay

def previousDateKey (dateKey : Nat) : Nat :=
  timestampToDateKey (dateKeyToUtcTimestamp dateKey - secondsPerDay)

inductive TimeError where
  | preGenesis (utcDay genesisUtcDay : Nat)

def nextDateKey (dateKey : Nat) : Nat :=
  timestampToDateKey (saturatingAdd 64 (dateKeyToUtcTimestamp dateKey) secondsPerDay)

def dayNumberBetween (genesisUtcDay utcDay : Nat) : Except TimeError Nat := do
  let delta ← okOr (checkedSub (dateKeyToUtcTimestamp utcDay) (dateKeyToUtcTimestamp genesisUtcDay))
    (.preGenesis utcDay genesisUtcDay)
  pure (min (delta / secondsPerDay) (2 ^ 32 - 1))

def utcPlus14Offset : Nat := 50400

/-- `WorldwideDay::from_timestamp`. -/
def worldwideDayFromTimestamp (timestamp : Nat) : Nat :=
  timestampToDateKey (wrappingAdd 64 timestamp utcPlus14Offset)

/-- When a worldwide day begins to form. -/
def startTimestamp (day : Nat) : Nat := dateKeyToUtcTimestamp day - utcPlus14Offset

end Rudis

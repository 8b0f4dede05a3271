import GrpcWebnext.Library.Duration
import GrpcWebnext.HttpRule.Integers

/-! The `grpc-timeout` of a request: what the two servers read in it, and what they forward
with the grace. -/
namespace GrpcWebnext.Deadline
open Framing (Bytes)
open Text (Str)
open Time (Duration)

inductive TimeoutUnit where
  | hour
  | minute
  | second
  | milli
  | micro
  | nano
  deriving DecidableEq

namespace TimeoutUnit

def letter : TimeoutUnit → Char
  | .hour => 'H'
  | .minute => 'M'
  | .second => 'S'
  | .milli => 'm'
  | .micro => 'u'
  | .nano => 'n'

def nanos : TimeoutUnit → Nat
  | .hour => 3600 * 10 ^ 9
  | .minute => 60 * 10 ^ 9
  | .second => 10 ^ 9
  | .milli => 10 ^ 6
  | .micro => 10 ^ 3
  | .nano => 1

theorem letter_injective {u v : TimeoutUnit} (same : u.letter = v.letter) : u = v := by
  revert same
  cases u <;> cases v <;> decide

end TimeoutUnit

/-- A gRPC timeout: one to eight digits and a unit. -/
def Denotes (value : Bytes) (nanos : Nat) : Prop :=
  ∃ digits unit n, value = Utf8.encode (digits ++ [TimeoutUnit.letter unit]) ∧ digits.length ≤ 8 ∧
    decimal digits = some n ∧ nanos = n * unit.nanos

/-- What a header asks for, also with a sign or with more digits. -/
def Asks (value : Bytes) (nanos : Nat) : Prop :=
  ∃ sign digits unit n, value.map (fun b => Char.ofNat b.toNat) =
    sign ++ digits ++ [TimeoutUnit.letter unit] ∧
    sign ∈ [[], ['+'], ['-']] ∧ decimal digits = some n ∧ nanos = n * unit.nanos

/-- A gRPC timeout that leaves a call its deadline. -/
def Sufficient (value : Bytes) (deadline : Nat) : Prop := ∃ nanos, Denotes value nanos ∧ deadline ≤ nanos

/-- The deadline from which on eight digits of milliseconds do not hold it and the grace. -/
def ceiling : Nat := (10 ^ 8 - 500) * 10 ^ 6

namespace Rust

/-- `u64::checked_mul`. -/
def checkedMul (n : UInt64) (k : Nat) : Option UInt64 :=
  if n.toNat * k < 2 ^ 64 then some (UInt64.ofNat (n.toNat * k)) else none

def parseGrpcTimeout (headers : HeaderMap) : Option Duration :=
  (headers.get "grpc-timeout").bind fun value => (toStr value).bind fun raw =>
    if raw.length = 0 then none
    else
      let (value, unit) := raw.splitAt (raw.length - 1)
      (HttpRule.Rust.parseUnsigned 64 value).bind fun parsed =>
        let n := UInt64.ofNat parsed.toNat
        match unit with
        | ['H'] => (checkedMul n 3600).map Duration.ofSecs
        | ['M'] => (checkedMul n 60).map Duration.ofSecs
        | ['S'] => some (Duration.ofSecs n)
        | ['m'] => some (Duration.ofMillis n)
        | ['u'] => some (Duration.ofMicros n)
        | ['n'] => some (Duration.ofNanos n)
        | _ => none

def formatGrpcTimeout (d : Duration) : Bytes :=
  Utf8.encode (Nat.toDigits 10 (min d.asMillis (2 ^ 64 - 1)) ++ ['m'])

def grpcTimeoutFromMillis (timeoutMillis : UInt32) : Option Duration :=
  if timeoutMillis = 0 then none else some (Duration.ofMillis timeoutMillis.toUInt64)

def deadlineGrace : Duration := Duration.ofMillis 500

/-- `format_grpc_timeout(d + DEADLINE_GRACE)`; `none` is the panic of the sum. -/
def forwarded (d : Duration) : Option Bytes := (d.add deadlineGrace).map formatGrpcTimeout

end Rust

namespace Go

/-- The arithmetic of `int64`. -/
def wrap (n : Int) : Int := n.bmod (2 ^ 64)

def maxTimeout : Int := 2 ^ 63 - 1

def deadlineGrace : Int := 500 * 10 ^ 6

/-- The unit of the last byte, as a `time.Duration`. -/
def unitOf (letter : UInt8) : Option Int :=
  if letter = 72 then some (3600 * 10 ^ 9)
  else if letter = 77 then some (60 * 10 ^ 9)
  else if letter = 83 then some (10 ^ 9)
  else if letter = 109 then some (10 ^ 6)
  else if letter = 117 then some (10 ^ 3)
  else if letter = 110 then some 1
  else none

def parseGRPCTimeout (headers : HeaderMap) : Option Int :=
  let raw := (headers.get "grpc-timeout").getD []
  if raw.length < 2 ∨ 9 < raw.length then none
  else (raw.getLast?.bind unitOf).bind fun unit =>
    match HttpRule.Go.parseInt 64 raw.dropLast with
    | .error _ => none
    | .ok n =>
        if n < 0 then none
        else if maxTimeout.tdiv unit < n then some maxTimeout
        else some (wrap (n * unit))

def formatGRPCTimeout (d : Int) : Bytes :=
  let ms := d.tdiv (10 ^ 6)
  let ms := if ms < 1 then 1 else ms
  Utf8.encode (Nat.toDigits 10 ms.toNat ++ ['m'])

def timeoutFromMillis (ms : UInt32) : Int := if ms = 0 then 0 else wrap (ms.toNat * 10 ^ 6)

/-- `formatGRPCTimeout(deadline+deadlineGrace)`. -/
def forwarded (deadline : Int) : Bytes := formatGRPCTimeout (wrap (deadline + deadlineGrace))

end Go

theorem toDigits_all (n : Nat) : (Nat.toDigits 10 n).all Char.isDigit = true :=
  List.all_eq_true.mpr fun _ inside => Nat.isDigit_of_mem_toDigits (by decide) (by decide) inside

/-- What is printed is read back. -/
theorem decimal_toDigits (n : Nat) : decimal (Nat.toDigits 10 n) = some n := by
  have read := Nat.ofDigitChars_ten_toDigits (n := n)
  rw [Nat.ofDigitChars_eq_foldl] at read
  rw [decimal, if_pos ⟨Nat.toDigits_ne_nil, toDigits_all n⟩, Option.some.injEq]
  simp only [Nat.mul_comm] at read ⊢
  exact read

theorem digits_head {digits : Str} (all : digits.all Char.isDigit = true) :
    digits.head? ≠ some '+' ∧ digits.head? ≠ some '-' := by
  cases digits with
  | nil => exact ⟨nofun, nofun⟩
  | cons c rest =>
      rw [List.all_cons, Bool.and_eq_true] at all
      refine ⟨?_, ?_⟩ <;> rintro ⟨⟩ <;> exact absurd all.1 (by decide)

theorem encode_millis (digits : Str) : Utf8.encode (digits ++ ['m']) = Utf8.encode digits ++ [109] := by
  rw [Utf8.encode_append]
  rfl

theorem toStr_digits {digits : Str} (all : digits.all Char.isDigit = true) :
    toStr (Utf8.encode (digits ++ ['m'])) = some (digits ++ ['m']) := by
  obtain ⟨same, spelled⟩ := HttpRule.Go.letters_encode digits
  rw [all, List.all_eq_true] at same
  have visible : ∀ b ∈ Utf8.encode digits, ((32 ≤ b && b < 127) || b == 9) = true := by
    intro b inside
    obtain ⟨low, high⟩ := (HttpRule.Go.letter_digit b).mp (same _ (List.mem_map_of_mem inside))
    rw [Bool.or_eq_true, Bool.and_eq_true]
    refine .inl ⟨decide_eq_true ?_, decide_eq_true ?_⟩
    · exact UInt8.le_trans (by decide) low
    · exact UInt8.lt_of_le_of_lt high (by decide)
  have every : (Utf8.encode digits ++ [109]).all (fun b => (32 ≤ b && b < 127) || b == 9) = true := by
    rw [List.all_append, List.all_eq_true.mpr visible]
    rfl
  have letters := spelled all
  rw [HttpRule.Go.letters] at letters
  rw [encode_millis, toStr, if_pos every, List.map_append, letters]
  rfl

/-- A header asks for one duration. -/
theorem Asks.unique {value : Bytes} {nanos nanos' : Nat} (asks : Asks value nanos)
    (asks' : Asks value nanos') :
    nanos = nanos' := by
  obtain ⟨sign, digits, unit, n, spelled, signs, number, rfl⟩ := asks
  obtain ⟨sign', digits', unit', n', spelled', signs', number', rfl⟩ := asks'
  obtain ⟨front, last⟩ := List.append_inj' (spelled.symm.trans spelled') rfl
  obtain rfl := TimeoutUnit.letter_injective (List.cons.inj last).1
  have bare : ∀ {digits : Str} {n : Nat}, decimal digits = some n →
      ∀ rest, digits ≠ '+' :: rest ∧ digits ≠ '-' :: rest := by
    intro digits n number rest
    obtain ⟨-, all, -⟩ := HttpRule.decimal_eq_some_iff.mp number
    refine ⟨?_, ?_⟩ <;> rintro rfl <;> rw [List.all_cons, Bool.and_eq_true] at all <;>
      exact absurd all.1 (by decide)
  have same : digits = digits' := by
    simp only [List.mem_cons, List.not_mem_nil, or_false] at signs signs'
    rcases signs with rfl | rfl | rfl <;> rcases signs' with rfl | rfl | rfl
    · exact front
    · exact absurd front (bare number digits').1
    · exact absurd front (bare number digits').2
    · exact absurd front.symm (bare number' digits).1
    · exact (List.cons.inj front).2
    · cases (List.cons.inj front).1
    · exact absurd front.symm (bare number' digits).2
    · cases (List.cons.inj front).1
    · exact (List.cons.inj front).2
  subst same
  rw [Option.some.inj (number.symm.trans number')]

/-- A number of milliseconds is a gRPC timeout as long as it has eight digits. -/
theorem sufficient_millis_iff (millis deadline : Nat) :
    Sufficient (Utf8.encode (Nat.toDigits 10 millis ++ ['m'])) deadline ↔
      millis < 10 ^ 8 ∧ deadline ≤ millis * 10 ^ 6 := by
  have short : (Nat.toDigits 10 millis).length ≤ 8 ↔ millis < 10 ^ 8 :=
    Nat.length_toDigits_le_iff (by decide) (by decide)
  constructor
  · rintro ⟨nanos, ⟨digits, unit, n, spelled, length, read, rfl⟩, enough⟩
    obtain ⟨rfl, letter⟩ := List.append_inj' (Utf8.encode_injective spelled) rfl
    obtain rfl : TimeoutUnit.milli = unit := TimeoutUnit.letter_injective (List.cons.inj letter).1
    rw [decimal_toDigits, Option.some.injEq] at read
    subst read
    exact ⟨short.mp length, enough⟩
  · rintro ⟨small, enough⟩
    exact ⟨_, ⟨_, .milli, millis, rfl, short.mpr small, decimal_toDigits millis, rfl⟩, enough⟩

theorem Rust.sufficient_iff {d : Duration} {value : Bytes} (sent : forwarded d = some value) :
    Sufficient value d.toNanos ↔ d.toNanos < ceiling := by
  obtain ⟨sum, added, rfl⟩ := Option.map_eq_some_iff.mp sent
  have grace : deadlineGrace.toNanos = 500 * 10 ^ 6 := Duration.toNanos_ofMillis 500
  have total := Duration.toNanos_add added
  rw [formatGrpcTimeout, sufficient_millis_iff, Duration.asMillis_eq, total, grace, ceiling]
  omega

/-- A sum that wraps is printed as one millisecond. -/
theorem Go.sufficient_iff (nanos : Nat) :
    Sufficient (forwarded (min (nanos : Int) maxTimeout)) nanos ↔ nanos < ceiling := by
  have capped : min (nanos : Int) maxTimeout ≤ nanos ∧ min (nanos : Int) maxTimeout ≤ 2 ^ 63 - 1 ∧
      ((nanos : Int) < 2 ^ 63 → min (nanos : Int) maxTimeout = nanos) := by
    unfold maxTimeout
    omega
  have started : 0 ≤ min (nanos : Int) maxTimeout := by
    unfold maxTimeout
    omega
  generalize min (nanos : Int) maxTimeout = d at capped started
  obtain ⟨below, longest, exact_⟩ := capped
  rw [forwarded, formatGRPCTimeout, sufficient_millis_iff, ceiling, deadlineGrace, wrap]
  by_cases fits : d + 500 * 10 ^ 6 < 2 ^ 63
  · have whole : (d + 500 * 10 ^ 6).bmod (2 ^ 64) = d + 500 * 10 ^ 6 :=
      Int.bmod_eq_of_le (by omega) (by omega)
    rw [whole]
    have ms := Int.tdiv_eq_ediv_of_nonneg (a := d + 500 * 10 ^ 6) (b := 10 ^ 6) (by omega)
    rw [ms]
    split <;> omega
  · have wrapped : (d + 500 * 10 ^ 6).bmod (2 ^ 64) = d + 500 * 10 ^ 6 - 2 ^ 64 :=
      (Int.bmod_eq_iff (by decide)).mpr ⟨by omega, by omega, -1, by omega⟩
    have ms : (d + 500 * 10 ^ 6 - 2 ^ 64).tdiv (10 ^ 6) < 1 := by
      have back : d + 500 * 10 ^ 6 - 2 ^ 64 = -(2 ^ 64 - (d + 500 * 10 ^ 6)) := by omega
      have down := Int.tdiv_nonneg (a := 2 ^ 64 - (d + 500 * 10 ^ 6)) (b := 10 ^ 6) (by omega) (by decide)
      rw [back, Int.neg_tdiv]
      omega
    rw [wrapped, if_pos ms]
    omega

/-- An unsigned number is digits behind a sign, if any. -/
theorem Rust.parseUnsigned_spelled {bits : Nat} {s : Str} {parsed : Int}
    (read : HttpRule.Rust.parseUnsigned bits s = some parsed) :
    ∃ sign digits, s = sign ++ digits ∧ sign ∈ [[], ['+'], ['-']] ∧ decimal digits = some parsed.toNat ∧
      parsed.toNat < 2 ^ bits := by
  rw [HttpRule.Rust.parseUnsigned_eq] at read
  obtain ⟨n, kept, rfl⟩ := Option.map_eq_some_iff.mp read
  obtain ⟨found, small⟩ := Option.filter_eq_some_iff.mp kept
  unfold HttpRule.Rust.unsigned at found
  split at found
  · exact ⟨['+'], _, rfl, by simp, found, of_decide_eq_true small⟩
  · exact ⟨[], _, rfl, by simp, found, of_decide_eq_true small⟩

theorem Go.parseInt_spelled {bits : Nat} (two : 2 ≤ bits) (width : bits ≤ 64) {text : Bytes} {n : Int}
    (read : HttpRule.Go.parseInt bits text = .ok n) (nonneg : 0 ≤ n) :
    ∃ sign digits, text.map (fun b => Char.ofNat b.toNat) = sign ++ digits ∧ sign ∈ [[], ['+'], ['-']] ∧
      decimal digits = some n.toNat := by
  have parsed := HttpRule.Go.parseInt_eq two width text
  rw [read] at parsed
  change some n = HttpRule.parseSigned bits (text.map fun b => Char.ofNat b.toNat) at parsed
  generalize text.map (fun b => Char.ofNat b.toNat) = s at parsed
  unfold HttpRule.parseSigned at parsed
  dsimp only at parsed
  split at parsed
  · obtain ⟨m, found, inside⟩ := Option.bind_eq_some_iff.mp parsed.symm
    obtain ⟨-, same⟩ := Option.ite_none_right_eq_some.mp inside
    cases same
    have zero : m = (-(m : Int)).toNat := by omega
    exact ⟨['-'], _, rfl, by simp, zero ▸ found⟩
  · obtain ⟨m, found, inside⟩ := Option.bind_eq_some_iff.mp parsed.symm
    obtain ⟨-, same⟩ := Option.ite_none_right_eq_some.mp inside
    cases same
    exact ⟨['+'], _, rfl, by simp, found⟩
  · obtain ⟨m, found, inside⟩ := Option.bind_eq_some_iff.mp parsed.symm
    obtain ⟨-, same⟩ := Option.ite_none_right_eq_some.mp inside
    cases same
    exact ⟨[], _, rfl, by simp, found⟩

/-- A product that fits is a number of seconds below the last one a duration has. -/
theorem Rust.ofSecs_checkedMul {n : UInt64} {k : Nat} {d : Duration}
    (made : (checkedMul n k).map Duration.ofSecs = some d) :
    d.toNanos = n.toNat * (k * 10 ^ 9) ∧ d.toNanos ≤ (2 ^ 64 - 1) * 10 ^ 9 := by
  obtain ⟨product, fits, rfl⟩ := Option.map_eq_some_iff.mp made
  obtain ⟨small, same⟩ := Option.ite_none_right_eq_some.mp fits
  cases same
  rw [Duration.toNanos_ofSecs, UInt64.toNat_ofNat_of_lt' small]
  exact ⟨Nat.mul_assoc .., by omega⟩

/-- What the Rust edge accepts is what the header asks for, below the last second a duration
has. -/
theorem Rust.accepted {headers : HeaderMap} {d : Duration} (accepted : parseGrpcTimeout headers = some d) :
    ∃ value, headers.get "grpc-timeout" = some value ∧ Asks value d.toNanos ∧
    d.toNanos ≤ (2 ^ 64 - 1) * 10 ^ 9 := by
  obtain ⟨value, found, accepted⟩ := Option.bind_eq_some_iff.mp accepted
  obtain ⟨raw, visible, accepted⟩ := Option.bind_eq_some_iff.mp accepted
  obtain ⟨-, accepted⟩ := Option.ite_none_left_eq_some.mp accepted
  rw [List.splitAt_eq] at accepted
  obtain ⟨parsed, read, accepted⟩ := Option.bind_eq_some_iff.mp accepted
  obtain ⟨sign, digits, spelled, signs, number, small⟩ := parseUnsigned_spelled read
  have letters : value.map (fun b => Char.ofNat b.toNat) = raw := by
    obtain ⟨-, same⟩ := Option.ite_none_right_eq_some.mp visible
    exact Option.some.inj same
  have whole : (UInt64.ofNat parsed.toNat).toNat = parsed.toNat := UInt64.toNat_ofNat_of_lt' small
  have reads : ∀ unit, raw.drop (raw.length - 1) = [TimeoutUnit.letter unit] →
      d.toNanos = parsed.toNat * unit.nanos → d.toNanos ≤ (2 ^ 64 - 1) * 10 ^ 9 →
      ∃ value, headers.get "grpc-timeout" = some value ∧ Asks value d.toNanos ∧
        d.toNanos ≤ (2 ^ 64 - 1) * 10 ^ 9 := by
    intro unit last product bound
    refine ⟨value, found, ⟨sign, digits, unit, parsed.toNat, ?_, signs, number, product⟩, bound⟩
    rw [letters, ← last, ← spelled, List.take_append_drop]
  have wide := (UInt64.ofNat parsed.toNat).toNat_lt
  rw [whole] at wide
  dsimp only at accepted
  split at accepted
  · rename_i last
    obtain ⟨product, bound⟩ := ofSecs_checkedMul accepted
    exact reads .hour last (whole ▸ product) bound
  · rename_i last
    obtain ⟨product, bound⟩ := ofSecs_checkedMul accepted
    exact reads .minute last (whole ▸ product) bound
  · rename_i last
    cases accepted
    refine reads .second last ?_ ?_ <;> rw [Duration.toNanos_ofSecs, whole]
    · rfl
    · omega
  · rename_i last
    cases accepted
    refine reads .milli last ?_ ?_ <;> rw [Duration.toNanos_ofMillis, whole]
    · rfl
    · omega
  · rename_i last
    cases accepted
    refine reads .micro last ?_ ?_ <;> rw [Duration.toNanos_ofMicros, whole]
    · rfl
    · omega
  · rename_i last
    cases accepted
    refine reads .nano last ?_ ?_ <;> rw [Duration.toNanos_ofNanos, whole]
    · exact (Nat.mul_one _).symm
    · omega
  · cases accepted

/-- There is room for the grace on it. -/
theorem Rust.forwarded_of_bound {d : Duration} (bound : d.toNanos ≤ (2 ^ 64 - 1) * 10 ^ 9) :
    ∃ value, forwarded d = some value := by
  have grace : deadlineGrace.toNanos = 500 * 10 ^ 6 := Duration.toNanos_ofMillis 500
  obtain ⟨sum, added⟩ := Duration.add_of_fits (a := d) (b := deadlineGrace) (by rw [grace]; omega)
  exact ⟨formatGrpcTimeout sum, by rw [forwarded, added, Option.map_some]⟩

theorem Rust.fromMillis_nanos {timeoutMillis : UInt32} {d : Duration}
    (given : grpcTimeoutFromMillis timeoutMillis = some d) : d.toNanos = timeoutMillis.toNat * 10 ^ 6 := by
  obtain ⟨-, same⟩ := Option.ite_none_left_eq_some.mp given
  cases same
  rw [Duration.toNanos_ofMillis, UInt32.toNat_toUInt64]

theorem Go.unitOf_letter {b : UInt8} {nanos : Int} (known : unitOf b = some nanos) :
    ∃ unit, Char.ofNat b.toNat = TimeoutUnit.letter unit ∧ nanos = unit.nanos := by
  unfold unitOf at known
  split_ifs at known with hour minute second milli micro nano <;> cases known
  · exact ⟨.hour, by rw [hour]; rfl, rfl⟩
  · exact ⟨.minute, by rw [minute]; rfl, rfl⟩
  · exact ⟨.second, by rw [second]; rfl, rfl⟩
  · exact ⟨.milli, by rw [milli]; rfl, rfl⟩
  · exact ⟨.micro, by rw [micro]; rfl, rfl⟩
  · exact ⟨.nano, by rw [nano]; rfl, rfl⟩

/-- What the Go edge accepts is what the header asks for, capped at the longest deadline. -/
theorem Go.accepted {headers : HeaderMap} {d : Int} (accepted : parseGRPCTimeout headers = some d) :
    ∃ value nanos, headers.get "grpc-timeout" = some value ∧ Asks value nanos ∧
    d = min (nanos : Int) maxTimeout := by
  obtain ⟨length, accepted⟩ := Option.ite_none_left_eq_some.mp accepted
  obtain ⟨unit, known, accepted⟩ := Option.bind_eq_some_iff.mp accepted
  obtain ⟨letter, last, known⟩ := Option.bind_eq_some_iff.mp known
  obtain ⟨unit, same, rfl⟩ := unitOf_letter known
  cases found : headers.get "grpc-timeout" with
  | none => simp [found] at length
  | some value =>
      rw [found, Option.getD_some] at last accepted
      split at accepted
      · cases accepted
      · rename_i n parsed
        obtain ⟨positive, accepted⟩ := Option.ite_none_left_eq_some.mp accepted
        obtain ⟨sign, digits, spelled, signs, number⟩ :=
          parseInt_spelled (by decide) (by decide) parsed (by omega)
        have asks : Asks value (n.toNat * unit.nanos) := by
          refine ⟨sign, digits, unit, n.toNat, ?_, signs, number, rfl⟩
          obtain ⟨front, rfl⟩ := List.getLast?_eq_some_iff.mp last
          rw [List.dropLast_concat] at spelled
          rw [List.map_append, spelled, List.map_singleton, same]
        refine ⟨value, n.toNat * unit.nanos, rfl, asks, ?_⟩
        have unit_pos : (0 : Int) < unit.nanos := by cases unit <;> decide
        have cast : ((n.toNat * unit.nanos : Nat) : Int) = n * unit.nanos := by
          rw [Nat.cast_mul, Int.toNat_of_nonneg (by omega)]
        have quotient : maxTimeout.tdiv unit.nanos = maxTimeout / unit.nanos :=
          Int.tdiv_eq_ediv_of_nonneg (by decide)
        rw [cast]
        split at accepted
        · rename_i large
          cases accepted
          have beyond : maxTimeout < n * unit.nanos := (Int.ediv_lt_iff_lt_mul unit_pos).mp (by omega)
          exact (min_eq_right beyond.le).symm
        · rename_i small
          cases accepted
          have product : n * unit.nanos ≤ maxTimeout := (Int.le_ediv_iff_mul_le unit_pos).mp (by omega)
          have nonneg : 0 ≤ n * (unit.nanos : Int) := Int.mul_nonneg (by omega) (by omega)
          rw [min_eq_left product]
          unfold maxTimeout at product
          exact Int.bmod_eq_of_le (by omega) (by omega)

/-- The timeout that goes with the request is well formed and long enough exactly while the
deadline and the grace are below a hundred thousand seconds. -/
theorem forwarded_sufficient_iff (headers : HeaderMap) (millis : UInt32) :
    (∀ d, Rust.parseGrpcTimeout headers = some d →
      ∃ value nanos sent, headers.get "grpc-timeout" = some value ∧ Asks value nanos ∧
        Rust.forwarded d = some sent ∧
        (Sufficient sent nanos ↔ nanos < ceiling)) ∧
    (∀ d, Rust.grpcTimeoutFromMillis millis = some d →
      ∃ sent, Rust.forwarded d = some sent ∧
        (Sufficient sent (millis.toNat * 10 ^ 6) ↔ millis.toNat * 10 ^ 6 < ceiling)) ∧
    (∀ d, Go.parseGRPCTimeout headers = some d →
      ∃ value nanos, headers.get "grpc-timeout" = some value ∧ Asks value nanos ∧
        (Sufficient (Go.forwarded d) nanos ↔ nanos < ceiling)) ∧
    (millis ≠ 0 →
      (Sufficient (Go.forwarded (Go.timeoutFromMillis millis)) (millis.toNat * 10 ^ 6) ↔
        millis.toNat * 10 ^ 6 < ceiling)) := by
  refine ⟨?_, ?_, ?_, ?_⟩
  · intro d accepted
    obtain ⟨value, found, asks, bound⟩ := Rust.accepted accepted
    obtain ⟨sent, forwarded⟩ := Rust.forwarded_of_bound bound
    exact ⟨value, d.toNanos, sent, found, asks, forwarded, Rust.sufficient_iff forwarded⟩
  · intro d given
    have small := millis.toNat_lt
    have nanos := Rust.fromMillis_nanos given
    obtain ⟨sent, forwarded⟩ := Rust.forwarded_of_bound (d := d) (by omega)
    exact ⟨sent, forwarded, nanos ▸ Rust.sufficient_iff forwarded⟩
  · intro d accepted
    obtain ⟨value, nanos, found, asks, rfl⟩ := Go.accepted accepted
    exact ⟨value, nanos, found, asks, Go.sufficient_iff nanos⟩
  · intro given
    have small := millis.toNat_lt
    have exact_ : Go.timeoutFromMillis millis = min ((millis.toNat * 10 ^ 6 : Nat) : Int) Go.maxTimeout := by
      rw [Go.timeoutFromMillis, if_neg given, Go.wrap, Go.maxTimeout, min_eq_left (by omega), Nat.cast_mul]
      exact Int.bmod_eq_of_le (by omega) (by omega)
    rw [exact_]
    exact Go.sufficient_iff _

/-- Thirty seconds leave room on every path. -/
theorem half_minute_forwarded :
    (∃ nanos sent, Asks (utf8 "30S") nanos ∧ Rust.forwarded (Duration.ofSecs 30) = some sent ∧
      (Sufficient sent nanos ↔ nanos < ceiling)) ∧
    (∃ sent, Rust.forwarded (Duration.ofMillis 30000) = some sent ∧ Sufficient sent (30000 * 10 ^ 6)) ∧
    (∃ nanos, Asks (utf8 "30S") nanos ∧ (Sufficient (Go.forwarded (30 * 10 ^ 9)) nanos ↔ nanos < ceiling)) ∧
    Sufficient (Go.forwarded (Go.timeoutFromMillis 30000)) (30000 * 10 ^ 6) := by
  have header : Rust.parseGrpcTimeout [("grpc-timeout".toList, utf8 "30S")] =
    some (Duration.ofSecs 30) := by decide
  have field : Rust.grpcTimeoutFromMillis 30000 = some (Duration.ofMillis 30000) := by decide
  have go : Go.parseGRPCTimeout [("grpc-timeout".toList, utf8 "30S")] = some (30 * 10 ^ 9) := by decide
  obtain ⟨rustHeader, rustMillis, goHeader, goMillis⟩ :=
    forwarded_sufficient_iff [("grpc-timeout".toList, utf8 "30S")] 30000
  refine ⟨?_, ?_, ?_, ?_⟩
  · obtain ⟨value, nanos, sent, found, asks, forwarded, iff⟩ := rustHeader _ header
    cases found
    exact ⟨nanos, sent, asks, forwarded, iff⟩
  · obtain ⟨sent, forwarded, iff⟩ := rustMillis _ field
    exact ⟨sent, forwarded, iff.mpr (by decide)⟩
  · obtain ⟨value, nanos, found, asks, iff⟩ := goHeader _ go
    cases found
    exact ⟨nanos, asks, iff⟩
  · exact (goMillis (by decide)).mpr (by decide)

/-- A hundred thousand seconds go out with nine digits, and the longest deadline of the Go
server as one millisecond. -/
theorem long_deadlines_malformed :
    (∃ d sent, Rust.parseGrpcTimeout [("grpc-timeout".toList, utf8 "100000S")] = some d ∧
      Rust.forwarded d = some sent ∧
      sent = utf8 "100000500m" ∧ ¬ Sufficient sent (100000 * 10 ^ 9)) ∧
    ∃ d, Go.parseGRPCTimeout [("grpc-timeout".toList, utf8 "99999999H")] = some d ∧
      Go.forwarded d = utf8 "1m" ∧ ¬ Sufficient (Go.forwarded d) (99999999 * 3600 * 10 ^ 9) := by
  constructor
  · have header : Rust.parseGrpcTimeout [("grpc-timeout".toList, utf8 "100000S")] =
      some (Duration.ofSecs 100000) := by
      decide
    have forwarded : Rust.forwarded (Duration.ofSecs 100000) = some (utf8 "100000500m") := by decide
    refine ⟨_, _, header, forwarded, rfl, fun sufficient => ?_⟩
    exact absurd ((Rust.sufficient_iff forwarded).mp sufficient) (by decide)
  · have header : Go.parseGRPCTimeout [("grpc-timeout".toList, utf8 "99999999H")] =
        some (min ((99999999 * 3600 * 10 ^ 9 : Nat) : Int) Go.maxTimeout) := by decide
    refine ⟨_, header, by decide, fun sufficient => ?_⟩
    exact absurd ((Go.sufficient_iff _).mp sufficient) (by decide)

end GrpcWebnext.Deadline

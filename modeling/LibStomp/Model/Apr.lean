import Mathlib.Algebra.Group.Int.Defs
import Mathlib.Algebra.Group.Nat.Defs
import Mathlib.Data.List.AList
import Mathlib.Data.List.TakeWhile

/-!
# The runtime under the library: strings, tables, conversions, sockets

`libstomp` is written against C strings and the Apache Portable Runtime.  This
module fixes the part of both that the library's code reads:

* C strings, as byte lists without a NUL (`CString`), and the two integer
  narrowings the code performs (`cInt` to `int`, `toSize` to `apr_size_t`);
* `apr_hash_t` with string keys, as a finite map whose iteration order is not
  determined by its content (`HashOrder`);
* `apr_itoa` and `apr_atoi64`, as their documented decimal behaviour;
* one connected socket, whose peer and network are a schedule of outcomes for
  the coming calls (`Socket`).

The three functions of the runtime whose results the code only passes on
(`apr_strerror`, `apr_uri_parse`) or iterates over (`apr_hash_next`) are
parameters: `Apr` and `HashOrder`.
-/

namespace LibStomp.Model

/-! ## Bytes and C strings -/

abbrev Bytes := List UInt8

abbrev nul : UInt8 := 0
abbrev lf : UInt8 := 10
abbrev colon : UInt8 := 58

/-- The bytes of an ASCII literal. -/
def ascii (s : String) : Bytes := s.toList.map fun c => UInt8.ofNat c.toNat

/-- A C string: the bytes before its terminating NUL. -/
@[ext] structure CString where
  bytes : Bytes
  nulFree : nul ∉ bytes
deriving DecidableEq

namespace CString

/-- The string that starts at the beginning of a buffer. -/
def ofBuffer (buf : Bytes) : CString :=
  ⟨buf.takeWhile (· != nul), fun h => by simpa using List.mem_takeWhile_imp h⟩

/-- The string that `%s` and `strlen` find in an object with the octets `buf`.  If there is
no NUL in it, they read on behind it. -/
def within (buf : Bytes) : Option CString :=
  if nul ∈ buf then some (ofBuffer buf) else none

/-- An ASCII literal of the source. -/
def lit (s : String) : CString := ofBuffer (ascii s)

/-- `strlen`. -/
def strlen (s : CString) : Nat := s.bytes.length

/-- Concatenation, as `vasprintf` pastes its arguments together. -/
def append (s t : CString) : CString :=
  ⟨s.bytes ++ t.bytes, by simp [s.nulFree, t.nulFree]⟩

instance : Append CString := ⟨append⟩

/-- `&s[1]`. -/
def tail (s : CString) : CString :=
  ⟨s.bytes.tail, fun h => s.nulFree (List.mem_of_mem_tail h)⟩

/-- `strncmp (s, prefix, strlen (prefix)) == 0`. -/
def startsWith (s p : CString) : Bool := p.bytes.isPrefixOf s.bytes

/-- `strstr (s, ":")`, splitting the string there: the text before the first
colon and the text after it. -/
def splitColon (s : CString) : Option (CString × CString) :=
  if colon ∈ s.bytes then
    some (⟨s.bytes.takeWhile (· != colon),
        fun h => s.nulFree ((List.takeWhile_sublist _).subset h)⟩,
      ⟨(s.bytes.dropWhile (· != colon)).tail,
        fun h => s.nulFree
          ((List.dropWhile_sublist _).subset (List.mem_of_mem_tail h))⟩)
  else none

@[simp] theorem bytes_append (s t : CString) :
    (s ++ t).bytes = s.bytes ++ t.bytes := rfl

/-- A string is read back from the buffer it was stored in. -/
theorem ofBuffer_bytes (s : CString) (rest : Bytes) :
    ofBuffer (s.bytes ++ nul :: rest) = s := by
  ext1
  show (s.bytes ++ nul :: rest).takeWhile (· != nul) = s.bytes
  rw [List.takeWhile_append_of_pos]
  · simp
  · intro b hb
    simpa using ne_of_mem_of_not_mem hb s.nulFree

end CString

/-! ## Integer narrowing -/

/-- Conversion of an integer to C `int` (32 bits, two's complement). -/
def cInt (i : Int) : Int := i.bmod (2 ^ 32)

/-- Conversion of an integer to `apr_size_t` (64 bits, unsigned). -/
def toSize (i : Int) : UInt64 := UInt64.ofNat (i % 2 ^ 64).toNat

theorem cInt_eq_of_lt {n : Nat} (h : n < 2 ^ 31) : cInt n = n := by
  unfold cInt
  rw [Int.bmod_def]
  omega

/-- What narrowing a length to `int` forgets: every multiple of `2 ^ 32`. -/
theorem cInt_eq_zero_iff (n : Nat) : cInt n = 0 ↔ n % 2 ^ 32 = 0 := by
  unfold cInt
  rw [Int.bmod_def]
  omega

theorem cInt_lt (i : Int) : cInt i < 2 ^ 31 := by
  unfold cInt
  rw [Int.bmod_def]
  omega

/-- The narrowed length in terms of its low 32 bits. -/
theorem cInt_eq (n : Nat) :
    cInt n = if n % 2 ^ 32 < 2 ^ 31 then ((n % 2 ^ 32 : Nat) : Int)
      else ((n % 2 ^ 32 : Nat) : Int) - 2 ^ 32 := by
  unfold cInt
  rw [Int.bmod_def]
  split <;> omega

/-- Narrowing keeps a length exactly when it fits. -/
theorem cInt_eq_self_iff {n : Nat} : cInt n = n ↔ n < 2 ^ 31 := by
  refine ⟨fun h => ?_, cInt_eq_of_lt⟩
  have hlt := cInt_lt n
  omega

/-- The size a length is converted back to. -/
theorem toSize_toNat (i : Int) : (toSize i).toNat = (i % 2 ^ 64).toNat := by
  rw [toSize, UInt64.toNat_ofNat']
  omega

theorem natAbs_cInt_le (i : Int) : (cInt i).natAbs ≤ 2 ^ 31 := by
  unfold cInt
  rw [Int.bmod_def]
  omega

/-! ## Decimal conversions -/

/-- Decimal digits of a natural number. -/
def decimal (n : Nat) : Bytes :=
  (Nat.toDigits 10 n).map fun c => UInt8.ofNat c.toNat

def isDigit (b : UInt8) : Bool := 48 ≤ b && b ≤ 57

/-- `isspace` of the C locale. -/
def isSpace (b : UInt8) : Bool := b == 32 || (9 ≤ b && b ≤ 13)

/-- The number denoted by the longest run of digits at the front. -/
def digitRun (s : Bytes) : Nat :=
  Nat.ofDigitChars 10 ((s.takeWhile isDigit).map fun b => Char.ofNat b.toNat) 0

/-- `apr_atoi64`: `strtoll` in base 10, without an error result.  Leading white
space and a sign are skipped, the text after the digits is ignored, and values
out of range saturate. -/
def aprAtoi64 (s : CString) : Int :=
  match s.bytes.dropWhile isSpace with
  | 45 :: ds => max (-(digitRun ds : Int)) (-2 ^ 63)
  | 43 :: ds => min (digitRun ds : Int) (2 ^ 63 - 1)
  | ds => min (digitRun ds : Int) (2 ^ 63 - 1)

theorem aprAtoi64_lt (s : CString) : aprAtoi64 s < 2 ^ 63 := by
  unfold aprAtoi64
  split <;> omega

private theorem isDigit_byte {c : Char} (h : c.isDigit = true) :
    isDigit (UInt8.ofNat c.toNat) = true ∧
      Char.ofNat (UInt8.ofNat c.toNat).toNat = c := by
  have hlo : 48 ≤ c.toNat := by
    simp only [Char.isDigit, Bool.and_eq_true, decide_eq_true_eq] at h
    exact h.1
  have hhi : c.toNat ≤ 57 := by
    simp only [Char.isDigit, Bool.and_eq_true, decide_eq_true_eq] at h
    exact h.2
  have hval : (UInt8.ofNat c.toNat).toNat = c.toNat := by
    rw [UInt8.toNat_ofNat']
    omega
  refine ⟨?_, by rw [hval, Char.ofNat_toNat]⟩
  simp only [isDigit, Bool.and_eq_true, decide_eq_true_eq,
    UInt8.le_iff_toNat_le, hval]
  exact ⟨hlo, hhi⟩

theorem isDigit_of_mem_decimal {n : Nat} {b : UInt8} (h : b ∈ decimal n) :
    isDigit b = true := by
  obtain ⟨c, hc, rfl⟩ := List.mem_map.mp h
  exact (isDigit_byte (Nat.isDigit_of_mem_toDigits (by decide) (by decide) hc)).1

theorem nul_notMem_decimal (n : Nat) : nul ∉ decimal n := fun h =>
  absurd (isDigit_of_mem_decimal h) (by decide)

/-- `apr_itoa`: the decimal text of a C `int`. -/
def aprItoa (i : Int) : CString :=
  if i < 0 then ⟨45 :: decimal i.natAbs, by
      simpa using ⟨by decide, nul_notMem_decimal _⟩⟩
  else ⟨decimal i.natAbs, nul_notMem_decimal _⟩

theorem lf_notMem_decimal (n : Nat) : lf ∉ decimal n := fun h =>
  absurd (isDigit_of_mem_decimal h) (by decide)

/-- The text of a number stays on its line. -/
theorem lf_notMem_aprItoa (i : Int) : lf ∉ (aprItoa i).bytes := by
  have hdecimal := lf_notMem_decimal i.natAbs
  unfold aprItoa
  split
  · simpa using ⟨by decide, hdecimal⟩
  · exact hdecimal

/-- The text of a C `int` has at most eleven bytes. -/
theorem length_aprItoa_le {i : Int} (h : i.natAbs ≤ 2 ^ 31) :
    (aprItoa i).strlen ≤ 11 := by
  have hdecimal : (decimal i.natAbs).length ≤ 10 := by
    rw [decimal, List.length_map,
      Nat.length_toDigits_le_iff (by decide) (by decide)]
    omega
  unfold aprItoa CString.strlen
  split
  · exact Nat.succ_le_succ hdecimal
  · exact Nat.le_succ_of_le hdecimal

theorem digitRun_decimal (n : Nat) : digitRun (decimal n) = n := by
  have hrun : (decimal n).takeWhile isDigit = decimal n := by
    rw [List.takeWhile_eq_self_iff]
    exact fun b hb => isDigit_of_mem_decimal hb
  have hchars : (decimal n).map (fun b => Char.ofNat b.toNat) =
      Nat.toDigits 10 n := by
    rw [decimal, List.map_map]
    conv => rhs; rw [← List.map_id (Nat.toDigits 10 n)]
    refine List.map_congr_left fun c hc => ?_
    have hdigit := Nat.isDigit_of_mem_toDigits (by decide) (by decide) hc
    exact (isDigit_byte hdigit).2
  rw [digitRun, hrun, hchars, Nat.ofDigitChars_ten_toDigits]

theorem decimal_injective {m n : Nat} (h : decimal m = decimal n) : m = n := by
  have hrun := congrArg digitRun h
  rwa [digitRun_decimal, digitRun_decimal] at hrun

/-- Only a number itself is printed as its decimal text. -/
theorem bytes_aprItoa_eq_iff {i : Int} {n : Nat} :
    (aprItoa i).bytes = decimal n ↔ i = n := by
  unfold aprItoa
  split
  · constructor
    · intro h
      -- a sign is no digit
      have hsign : 45 ∈ decimal n := h ▸ List.mem_cons_self
      exact absurd (isDigit_of_mem_decimal hsign) (by decide)
    · intro h
      omega
  · constructor
    · intro h
      have hn := decimal_injective h
      omega
    · intro h
      show decimal i.natAbs = decimal n
      rw [h, Int.natAbs_natCast]

/-- A text of digits alone is read as the number it denotes, or as the largest one
there is. -/
theorem aprAtoi64_digits {s : CString} (hne : s.bytes ≠ [])
    (hdigits : ∀ b ∈ s.bytes, isDigit b = true) :
    aprAtoi64 s = min (digitRun s.bytes : Int) (2 ^ 63 - 1) := by
  obtain ⟨b, bs, hb⟩ := List.exists_cons_of_ne_nil hne
  have hdigit : isDigit b = true := hdigits b (hb ▸ List.mem_cons_self)
  have hspace : isSpace b = false := by
    simp only [isDigit, Bool.and_eq_true, decide_eq_true_eq,
      UInt8.le_iff_toNat_le] at hdigit
    simp only [isSpace, Bool.or_eq_false_iff, beq_eq_false_iff_ne,
      Bool.and_eq_false_iff, decide_eq_false_iff_not, UInt8.le_iff_toNat_le,
      ne_eq, ← UInt8.toNat_inj]
    simp only [UInt8.reduceToNat] at *
    omega
  have hdrop : s.bytes.dropWhile isSpace = b :: bs := by
    rw [hb, List.dropWhile_cons_of_neg (by simp [hspace])]
  have h45 : b ≠ 45 := fun h => by subst h; simp [isDigit] at hdigit
  have h43 : b ≠ 43 := fun h => by subst h; simp [isDigit] at hdigit
  unfold aprAtoi64
  rw [hdrop]
  split
  · rename_i heq; exact absurd (List.cons.inj heq).1 h45
  · rename_i heq; exact absurd (List.cons.inj heq).1 h43
  · rw [hb]

theorem decimal_ne_nil (n : Nat) : decimal n ≠ [] := by
  simp [decimal, Nat.toDigits_ne_nil]

/-- Any decimal text is read as its number if there is one that large. -/
theorem aprAtoi64_of_decimal {n : Nat} {s : CString} (hs : s.bytes = decimal n) :
    aprAtoi64 s = min (n : Int) (2 ^ 63 - 1) := by
  rw [aprAtoi64_digits (hs ▸ decimal_ne_nil n)
    (fun b hb => isDigit_of_mem_decimal (hs ▸ hb)), hs, digitRun_decimal]

/-- The two conversions are inverse on the non-negative range of `apr_int64_t`. -/
theorem aprAtoi64_decimal {n : Nat} (s : CString) (hs : s.bytes = decimal n)
    (h : n < 2 ^ 63) : aprAtoi64 s = n := by
  rw [aprAtoi64_of_decimal hs]
  omega

/-! ## Hash tables -/

/-- `apr_hash_t` with `APR_HASH_KEY_STRING` keys: strings are compared by
content, each key occurs once. -/
abbrev Hash := AList (fun _ : CString => CString)

abbrev Header := (_ : CString) × CString

/-- `apr_hash_set`: a NULL value removes the key. -/
def aprHashSet (h : Hash) (key : CString) : Option CString → Hash
  | some value => h.insert key value
  | none => h.erase key

/-- `apr_hash_overlay (overlay, base)`: entries of the overlay win. -/
def aprHashOverlay (overlay base : Hash) : Hash := overlay ∪ base

/-- The order in which `apr_hash_first` and `apr_hash_next` visit a table.  The
runtime promises no more than that every entry is visited once. -/
structure HashOrder where
  iter : Hash → List Header
  perm : ∀ h, (iter h).Perm h.entries

/-- The order in which the entries are stored. -/
def HashOrder.stored : HashOrder := ⟨fun h => h.entries, fun _ => .refl _⟩

/-! ## Status values -/

/-- The `apr_status_t` values other than `APR_SUCCESS`. -/
inductive AprError
  | egeneral
  | enomem
  | eof
  | timeup
  | eagain
  | other (code : Nat)
deriving DecidableEq

/-- Result of `apr_uri_parse`: the fields of `apr_uri_t` that the library reads. -/
structure Uri where
  hostname : Option CString
  port : UInt16
  path : Option CString
deriving DecidableEq

/-- Functions of the runtime whose results the library passes on unread. -/
structure Apr where
  /-- `apr_strerror`, cut to the 80 byte buffer every caller passes. -/
  strerror : AprError → CString
  /-- `apr_uri_parse`: the structure is overwritten on failure, too. -/
  uriParse : CString → Option AprError × Uri

/-- A runtime to evaluate the model with: the texts of the C locale, and the
parts of `stomp://localhost:61613/queue/test`. -/
def Apr.sample : Apr where
  strerror
    | .egeneral => .lit "Internal error (specific information not available)"
    | .enomem => .lit "Cannot allocate memory"
    | .eof => .lit "End of file found"
    | .timeup => .lit "The timeout specified has expired"
    | .eagain => .lit "Resource temporarily unavailable"
    | .other _ => .lit "Error string not specified yet"
  uriParse _ :=
    (none, ⟨some (.lit "localhost"), 61613, some (.lit "/queue/test")⟩)

/-! ## One connected socket -/

/-- Outcome of a single `apr_socket_recv` or `apr_socket_send`: it moves at most
`extra + 1` bytes, or moves none and fails. -/
inductive Turn
  | upTo (extra : Nat)
  | fail (rc : AprError)
deriving DecidableEq

/-- A connected socket.  `inbox` holds the bytes of the peer that no receive has
returned yet, `outbox` every byte accepted so far.  The turns schedule the
coming calls; a call beyond its schedule moves all it can, and a receive that
finds the inbox empty reports `atEnd`. -/
structure Socket where
  descriptor : Nat
  inbox : Bytes
  outbox : Bytes
  recvs : List Turn
  sends : List Turn
  waits : List (Option AprError)
  atEnd : AprError
deriving DecidableEq

/-- Deliver up to `n` bytes of the inbox. -/
def Socket.pull (n : Nat) (s : Socket) : EStateM.Result AprError Socket Bytes :=
  if n = 0 then .error .eof s
  else if s.inbox = [] then .error s.atEnd s
  else .ok (s.inbox.take n) { s with inbox := s.inbox.drop n }

/-- `apr_socket_recv` with a request of `len` bytes.  A success delivers at least
one byte; a request of none is what `read` answers with 0, an end of file. -/
def aprSocketRecv (len : Nat) (s : Socket) :
    EStateM.Result AprError Socket Bytes :=
  match s.recvs with
  | [] => s.pull len
  | .upTo extra :: rest => { s with recvs := rest }.pull (min len (extra + 1))
  | .fail rc :: rest => .error rc { s with recvs := rest }

/-- `apr_socket_send`: the number of bytes accepted. -/
def aprSocketSend (data : Bytes) (s : Socket) :
    EStateM.Result AprError Socket Nat :=
  match s.sends with
  | [] => .ok data.length { s with outbox := s.outbox ++ data }
  | .upTo extra :: rest =>
      .ok (min data.length (extra + 1))
        { s with sends := rest, outbox := s.outbox ++ data.take (extra + 1) }
  | .fail rc :: rest => .error rc { s with sends := rest }

/-- `apr_wait_for_io_or_timeout` for reading. -/
def aprWaitForIo (s : Socket) : Option AprError × Socket :=
  match s.waits with
  | [] => (none, s)
  | outcome :: rest => (outcome, { s with waits := rest })

end LibStomp.Model

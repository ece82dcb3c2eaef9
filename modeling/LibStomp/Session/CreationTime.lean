import LibStomp.Session.Hops

/-!
# The time a message was created

`stomp_exchange_util_ctime` leaves the time in the exchange properties, as a decimal
text of milliseconds in a buffer of 32 octets.  The text always fits, and as a
property like any other it is sent with the message and merged by whoever receives
it, so that the last messenger of a chain finds the time of the first one.

## Main results

* `aprAtoi64_snprintf` — the text is never cut short, and denotes the number.
* `creation_time_kept` — after any number of hops the property is there and is read
  as the time of the first messenger.
-/

namespace LibStomp.Session.CreationTime

open LibStomp.Model
open LibStomp.Verified.Runs
open LibStomp.Session.Unread
open LibStomp.Session.Properties
open LibStomp.Session.LastWriter
open LibStomp.Session.Hops
open LibStomp.Stream.Grammar

/-! ## The text -/

theorem natAbs_toInt_le (i : Int64) : i.toInt.natAbs ≤ 2 ^ 63 := by
  have hlow := i.le_toInt
  have hhigh := i.toInt_lt
  omega

/-- The text of an `apr_int64_t` has at most twenty octets. -/
theorem length_decimal_le (i : Int64) : (aprItoa i.toInt).strlen ≤ 20 := by
  have hdecimal : (decimal i.toInt.natAbs).length ≤ 19 := by
    rw [decimal, List.length_map,
      Nat.length_toDigits_le_iff (by decide) (by decide)]
    exact Nat.lt_of_le_of_lt (natAbs_toInt_le i) (by decide)
  unfold aprItoa CString.strlen
  split
  · exact Nat.succ_le_succ hdecimal
  · exact Nat.le_succ_of_le hdecimal

/-- The buffer is large enough. -/
theorem snprintf_eq (i : Int64) : snprintfInt64 32 i = aprItoa i.toInt := by
  have hlength := length_decimal_le i
  unfold snprintfInt64
  rw [List.take_of_length_le (Nat.le_trans hlength (by decide))]
  exact CString.ext (ofBuffer_of_nulFree (aprItoa i.toInt).nulFree)

/-- A text with a sign is read as its number. -/
theorem aprAtoi64_negative {s : CString} {n : Nat} (hs : s.bytes = 45 :: decimal n)
    (hn : n ≤ 2 ^ 63) : aprAtoi64 s = -n := by
  have hdrop : s.bytes.dropWhile isSpace = 45 :: decimal n := by
    rw [hs, List.dropWhile_cons_of_neg (by decide)]
  unfold aprAtoi64
  rw [hdrop]
  show max (-(digitRun (decimal n) : Int)) (-2 ^ 63) = _
  rw [digitRun_decimal]
  omega

/-- **The text is the number.** -/
theorem aprAtoi64_snprintf (i : Int64) : aprAtoi64 (snprintfInt64 32 i) = i.toInt := by
  have hbound := natAbs_toInt_le i
  have hhigh := i.toInt_lt
  rw [snprintf_eq]
  by_cases hneg : i.toInt < 0
  · have hbytes : (aprItoa i.toInt).bytes = 45 :: decimal i.toInt.natAbs := by
      unfold aprItoa
      rw [if_pos hneg]
    rw [aprAtoi64_negative hbytes hbound]
    omega
  · have hbytes : (aprItoa i.toInt).bytes = decimal i.toInt.natAbs := by
      unfold aprItoa
      rw [if_neg hneg]
    rw [aprAtoi64_decimal _ hbytes (by omega)]
    omega

theorem toInt_aprTimeAsMsec (now : Int64) :
    (aprTimeAsMsec now).toInt = now.toInt.tdiv 1000 :=
  Int64.toInt_div_of_ne_right now 1000 (by decide)

/-! ## Hops -/

/-- The property is there and denotes the time. -/
def Stamped (now : Int64) (w : World) : Prop :=
  ∃ stamp, stompExchangeGet (.lit "creation") w = some stamp ∧ stamp.strlen ≤ 20 ∧
    aprAtoi64 stamp = now.toInt.tdiv 1000

theorem stamped_ctime (now : Int64) (w : World) :
    Stamped now (stompExchangeUtilCtime now w).2 := by
  refine ⟨snprintfInt64 32 (aprTimeAsMsec now), ?_, ?_, ?_⟩
  · show (aprHashSet w.messenger.exchangeProperties _ _).lookup _ = _
    rw [lookup_aprHashSet, if_pos rfl]
  · rw [snprintf_eq]
    exact length_decimal_le _
  · rw [aprAtoi64_snprintf, toInt_aprTimeAsMsec]

theorem application_creation : Application (.lit "creation") :=
  ⟨by decide, by decide, by decide, by decide⟩

/-- The property survives whatever keeps the application's properties. -/
theorem Stamped.kept {now : Int64} {text : CString} {w : World} {s : Station}
    (h : Stamped now w) (hkept : Kept text w s) : Stamped now s.2 := by
  obtain ⟨stamp, hget, hstamp⟩ := h
  exact ⟨stamp, hkept.properties _ _ application_creation hget, hstamp⟩

/-- The property keeps clear of the separators of a header line. -/
theorem cleanSettings_ctime (now : Int64) {w : World} (h : CleanSettings w) :
    CleanSettings (stompExchangeUtilCtime now w).2 where
  properties := by
    refine h.properties.set fun v hv => ?_
    obtain rfl := Option.some.inj hv
    rw [snprintf_eq]
    exact ⟨(by decide : colon ∉ (CString.lit "creation").bytes),
      (by decide : lf ∉ (CString.lit "creation").bytes), lf_notMem_aprItoa _⟩
  path := h.path

/-- **The time of creation arrives.**  A messenger stamps its properties and sends a text
through any number of hops: every messenger on the way finds the property, and reads
from it the milliseconds of the time at which the first one has stamped it, for
every time there is. -/
theorem creation_time_kept (A : Apr) (text : CString)
    (hlen : text.strlen + 1 ≤ 2 ^ 31 - 1) (message : Message) (w : World)
    (hclean : CleanSettings w) (now : Int64) (s : Station)
    (log : List (Event Station Hop Reply))
    (h : Run (hopStep A) (stompMessageFormat message text.bytes
      (UInt64.ofNat text.strlen), (stompExchangeUtilCtime now w).2) log s)
    (hhops : ∀ e ∈ log, e.call.WellFormed ∧ SendFits e.pre.2 e.call.header) :
    ∀ e ∈ log, Stamped now e.post.2 := by
  have hsize : (UInt64.ofNat text.strlen).toNat = text.strlen := by
    rw [UInt64.toNat_ofNat', Nat.mod_eq_of_lt (by omega)]
  have htext : IsText text (stompMessageFormat message text.bytes
      (UInt64.ofNat text.strlen)) := by
    apply isText_format message _ (by omega)
    rw [hsize, CString.strlen, List.take_length]
    exact CString.ext (ofBuffer_of_nulFree text.nulFree)
  have hstep : ∀ s hop r s',
      CleanSettings s.2 ∧ IsText text s.1 ∧ Stamped now s.2 →
        hop.WellFormed ∧ SendFits s.2 hop.header → hopStep A s hop = some (r, s') →
          CleanSettings s'.2 ∧ IsText text s'.1 ∧ Stamped now s'.2 := by
    rintro s hop r s' ⟨hs, htext, hstamped⟩ hhop hrun
    obtain ⟨-, hclean', hkept⟩ := kept_of_hopStep hlen hs htext hhop.1 hhop.2 hrun
    exact ⟨hclean', hkept.text, hstamped.kept hkept⟩
  have hstart := And.intro (cleanSettings_ctime now hclean)
    (And.intro htext (stamped_ctime now w))
  exact fun e he => ((h.invariant_of_guard hstep hstart hhops).2 e he).2.2.2

/-- Two hops after a day in November. -/
theorem creation_time_kept_quietHops :
    ∃ log : List (Event Station Hop Reply),
      log.map Event.call = [quietHop, quietHop] ∧
        ∀ e ∈ log, Stamped 1700000000123456 e.post.2 := by
  have hrun : (exec (hopStep .sample) (stompMessageFormat stompMessageCreate
      (CString.lit "hi").bytes (UInt64.ofNat (CString.lit "hi").strlen),
        (stompExchangeUtilCtime 1700000000123456 opened).2) [quietHop, quietHop]).map
          (fun p => p.1.all fun e => linesFit e.pre.2) = some true := by
    decide +kernel
  obtain ⟨⟨log, s⟩, hexec, hfits⟩ := Option.map_eq_some_iff.mp hrun
  have hcalls := exec_calls hexec
  refine ⟨log, hcalls, creation_time_kept .sample (.lit "hi") (by decide)
    stompMessageCreate opened cleanSettings_opened 1700000000123456 s log
    (exec_run hexec) fun e he => ?_⟩
  have hcall : e.call = quietHop := by
    have hmem := List.mem_map_of_mem (f := Event.call) he
    rw [hcalls] at hmem
    simpa using hmem
  rw [hcall]
  exact ⟨wellFormed_quietHop, sendFits_of_linesFit (List.all_eq_true.mp hfits e he) _⟩

end LibStomp.Session.CreationTime

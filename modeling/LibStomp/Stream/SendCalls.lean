import LibStomp.Stream.ReadLine

/-!
# Sequences of send calls

`stomp_write` hands its buffers to `apr_socket_send`, which may accept a part of
what it is given.  `Calls` is the run of a socket through such calls, each with
the data it was given and what came of it, and `Sends x bs` says of a function
that it goes on until all of `bs` is accepted or a call fails, and then stops and
returns the status of that call.  The relation composes.

## Main results

* `Calls.socket` — the calls append what they got accepted to the outbox, and do
  nothing else to the socket but use up its schedule.
* `stompWriteBuffer_sends` — `stomp_write_buffer` sends its buffer.
-/

namespace LibStomp.Stream.SendCalls

open LibStomp.Model
open LibStomp.Stream.ReadLine

/-! ## Calls -/

/-- One call of `apr_socket_send`: the data, and the number of bytes accepted or the
status it failed with. -/
structure SendCall where
  data : Bytes
  outcome : Except AprError Nat

namespace SendCall

/-- The bytes the call got accepted. -/
def accepted (c : SendCall) : Bytes :=
  match c.outcome with
  | .ok k => c.data.take k
  | .error _ => []

def Succeeds (c : SendCall) : Prop := ∃ k, c.outcome = .ok k

end SendCall

/-- The bytes that calls got accepted, in their order. -/
def acceptedBytes (cs : List SendCall) : Bytes := cs.flatMap SendCall.accepted

/-- The calls take the socket `s` to `s'`. -/
inductive Calls : Socket → List SendCall → Socket → Prop
  | none (s : Socket) : Calls s [] s
  | ok {s s' s'' : Socket} {data : Bytes} {k : Nat} {cs : List SendCall}
      (hsend : aprSocketSend data s = .ok k s') (hrest : Calls s' cs s'') :
      Calls s (⟨data, .ok k⟩ :: cs) s''
  | error {s s' s'' : Socket} {data : Bytes} {rc : AprError} {cs : List SendCall}
      (hsend : aprSocketSend data s = .error rc s') (hrest : Calls s' cs s'') :
      Calls s (⟨data, .error rc⟩ :: cs) s''

theorem Calls.append {s s' s'' : Socket} {cs ds : List SendCall}
    (h : Calls s cs s') (h' : Calls s' ds s'') : Calls s (cs ++ ds) s'' := by
  induction h with
  | none s => exact h'
  | ok hsend _ ih => exact .ok hsend (ih h')
  | error hsend _ ih => exact .error hsend (ih h')

/-- A successful call appends what it got accepted. -/
theorem aprSocketSend_ok {data : Bytes} {k : Nat} {s s' : Socket}
    (h : aprSocketSend data s = .ok k s') :
    s' = { s with outbox := s.outbox ++ data.take k, sends := s'.sends } ∧
      s'.sends <:+ s.sends := by
  unfold aprSocketSend at h
  split at h
  · obtain ⟨rfl, rfl⟩ := EStateM.Result.ok.inj h
    rw [List.take_length]
    exact ⟨rfl, List.suffix_refl _⟩
  · rename_i extra rest hsends
    obtain ⟨rfl, rfl⟩ := EStateM.Result.ok.inj h
    have htake : data.take (min data.length (extra + 1)) =
        data.take (extra + 1) := by
      rw [List.take_eq_take_iff]
      omega
    rw [htake, hsends]
    exact ⟨rfl, List.suffix_cons _ _⟩
  · cases h

/-- A call that fails uses up the turn that says so. -/
theorem aprSocketSend_error {data : Bytes} {rc : AprError} {s s' : Socket}
    (h : aprSocketSend data s = .error rc s') :
    s' = { s with sends := s'.sends } ∧ s.sends = .fail rc :: s'.sends := by
  unfold aprSocketSend at h
  split at h
  · cases h
  · cases h
  · rename_i rc' rest hsends
    obtain ⟨rfl, rfl⟩ := EStateM.Result.error.inj h
    exact ⟨rfl, hsends⟩

/-- **Calls append what they got accepted to the outbox**, in order, and besides use up
the schedule. -/
theorem Calls.socket {s s' : Socket} {cs : List SendCall} (h : Calls s cs s') :
    s' = { s with outbox := s.outbox ++ acceptedBytes cs, sends := s'.sends } ∧
      s'.sends <:+ s.sends := by
  induction h with
  | none s => exact ⟨by simp [acceptedBytes], List.suffix_refl _⟩
  | @ok s s' s'' data k cs hsend _ ih =>
      obtain ⟨hs, hsends⟩ := aprSocketSend_ok hsend
      obtain ⟨hs', hsends'⟩ := ih
      refine ⟨?_, hsends'.trans hsends⟩
      rw [hs', hs]
      simp [acceptedBytes, SendCall.accepted]
  | @error s s' s'' data rc cs hsend _ ih =>
      obtain ⟨hs, hsends⟩ := aprSocketSend_error hsend
      obtain ⟨hs', hsends'⟩ := ih
      refine ⟨?_, hsends'.trans ?_⟩
      · rw [hs', hs]
        simp [acceptedBytes, SendCall.accepted]
      · rw [hsends]
        exact List.suffix_cons _ _

/-- A call that fails was scheduled to. -/
theorem Calls.fail_mem {s s' : Socket} {cs : List SendCall} {data : Bytes}
    {rc : AprError} (h : Calls s cs s') (hc : ⟨data, .error rc⟩ ∈ cs) :
    .fail rc ∈ s.sends := by
  induction h with
  | none s => cases hc
  | ok hsend _ ih =>
      rcases List.mem_cons.mp hc with heq | hc
      · cases heq
      · exact (aprSocketSend_ok hsend).2.mem (ih hc)
  | error hsend _ ih =>
      rw [(aprSocketSend_error hsend).2]
      rcases List.mem_cons.mp hc with heq | hc
      · cases heq
        exact List.mem_cons_self
      · exact List.mem_cons_of_mem _ (ih hc)

theorem acceptedBytes_append (cs ds : List SendCall) :
    acceptedBytes (cs ++ ds) = acceptedBytes cs ++ acceptedBytes ds :=
  List.flatMap_append

/-- A failed call gets nothing accepted. -/
theorem acceptedBytes_failed (cs : List SendCall) (data : Bytes) (rc : AprError) :
    acceptedBytes (cs ++ [⟨data, .error rc⟩]) = acceptedBytes cs := by
  rw [acceptedBytes_append]
  exact List.append_nil _

/-! ## Functions that send -/

/-- `io'` is `io` after the calls `cs`, up to the record of errors. -/
structure Sent (io : Io) (cs : List SendCall) (io' : Io) : Prop where
  calls : Calls io.socket cs io'.socket
  endline : io'.endline = io.endline

theorem Sent.refl (io : Io) : Sent io [] io := ⟨.none _, rfl⟩

theorem Sent.trans {io io' io'' : Io} {cs ds : List SendCall}
    (h : Sent io cs io') (h' : Sent io' ds io'') : Sent io (cs ++ ds) io'' :=
  ⟨h.calls.append h'.calls, h'.endline.trans h.endline⟩

theorem Sent.setError {io io' : Io} {cs : List SendCall} (h : Sent io cs io')
    (error : Status) : Sent io cs { io' with error := error } :=
  ⟨h.calls, h.endline⟩

/-- The calls `cs` succeed and get `bs` accepted. -/
def Completes (cs : List SendCall) (bs : Bytes) : Prop :=
  (∀ c ∈ cs, c.Succeeds) ∧ acceptedBytes cs = bs

theorem Completes.append {cs ds : List SendCall} {a b : Bytes}
    (h : Completes cs a) (h' : Completes ds b) :
    Completes (cs ++ ds) (a ++ b) := by
  refine ⟨List.forall_mem_append.mpr ⟨h.1, h'.1⟩, ?_⟩
  rw [acceptedBytes_append, h.2, h'.2]

/-- `x` makes calls until `bs` is accepted, or until one of them fails, before the end
of `bs`; then `x` returns the status of that call, the last one it makes. -/
def Sends (x : IoM Unit) (bs : Bytes) : Prop :=
  ∀ io,
    (∃ cs io', x io = .ok () io' ∧ Sent io cs io' ∧ Completes cs bs) ∨
    (∃ cs data rc io' sent more, x io = .error rc io' ∧
      Sent io (cs ++ [⟨data, .error rc⟩]) io' ∧ Completes cs sent ∧
      bs = sent ++ more ∧ more ≠ [])

theorem sends_pure : Sends (pure ()) [] :=
  fun io => .inl ⟨[], io, rfl, .refl io, by simp, rfl⟩

theorem Sends.bind {x y : IoM Unit} {a b : Bytes} (hx : Sends x a)
    (hy : Sends y b) : Sends (x >>= fun _ => y) (a ++ b) := by
  intro io
  rcases hx io with ⟨cs, io', hok, hsent, hcs⟩ |
    ⟨cs, data, rc, io', sent, more, herror, hsent, hcs, rfl, hmore⟩
  · rcases hy io' with ⟨ds, io'', hok', hsent', hds⟩ |
      ⟨ds, data, rc, io'', sent, more, herror, hsent', hds, rfl, hmore⟩
    · exact .inl ⟨cs ++ ds, io'', (bind_of_ok hok).trans hok',
        hsent.trans hsent', hcs.append hds⟩
    · refine .inr ⟨cs ++ ds, data, rc, io'', a ++ sent, more,
        (bind_of_ok hok).trans herror, ?_, hcs.append hds,
        (List.append_assoc _ _ _).symm, hmore⟩
      rw [List.append_assoc]
      exact hsent.trans hsent'
  · exact .inr ⟨cs, data, rc, io', sent, more ++ b, bind_of_error herror, hsent,
      hcs, List.append_assoc _ _ _, by simp [hmore]⟩

theorem Sends.onError {x : IoM Unit} {bs : Bytes} (hx : Sends x bs)
    {note : AprError → Io → Io}
    (hnote : ∀ rc io, ∃ error, note rc io = { io with error := error }) :
    Sends (onError x note) bs := by
  intro io
  rcases hx io with ⟨cs, io', hok, hrest⟩ |
    ⟨cs, data, rc, io', sent, more, herror, hsent, hrest⟩
  · exact .inl ⟨cs, io', onError_of_ok hok, hrest⟩
  · obtain ⟨error, hn⟩ := hnote rc io'
    refine .inr ⟨cs, data, rc, _, sent, more, onError_of_error herror, ?_, hrest⟩
    rw [hn]
    exact hsent.setError error

theorem Sends.of_eq {x : IoM Unit} {a b : Bytes} (h : Sends x a) (hab : a = b) :
    Sends x b :=
  hab ▸ h

/-! ## One buffer -/

/-- A send makes one call. -/
private theorem send_sent (data : Bytes) (io : Io) :
    (∃ k io', send data io = .ok k io' ∧ Sent io [⟨data, .ok k⟩] io') ∨
    (∃ rc io', send data io = .error rc io' ∧
      Sent io [⟨data, .error rc⟩] io') := by
  unfold send
  cases hsend : aprSocketSend data io.socket with
  | ok k s => exact .inl ⟨k, _, rfl, .ok hsend (.none _), rfl⟩
  | error rc s => exact .inr ⟨rc, _, rfl, .error hsend (.none _), rfl⟩

/-- A call that succeeds accepts at least one byte. -/
private theorem pos_of_send {data : Bytes} (hne : data ≠ []) {io io' : Io} {k : Nat}
    (h : send data io = .ok k io') : 0 < k := by
  have hpos : 0 < data.length := List.length_pos_iff.mpr hne
  unfold send aprSocketSend at h
  split at h
  · rename_i heq
    split at heq
    · obtain ⟨rfl, -⟩ := EStateM.Result.ok.inj heq
      obtain ⟨rfl, -⟩ := EStateM.Result.ok.inj h
      exact hpos
    · obtain ⟨rfl, -⟩ := EStateM.Result.ok.inj heq
      obtain ⟨rfl, -⟩ := EStateM.Result.ok.inj h
      omega
    · cases heq
  · cases h

/-- The loop of `stomp_write_buffer`: what is accepted and what remains are the data. -/
private theorem writeLoop_sends (A : Apr) {fuel : Nat} :
    ∀ {data : Bytes}, data.length ≤ fuel →
      Sends (writeLoop A fuel data) data := by
  induction fuel with
  | zero =>
      intro data h
      obtain rfl : data = [] := List.length_eq_zero_iff.mp (by omega)
      exact sends_pure
  | succ fuel ih =>
      intro data h io
      rw [writeLoop]
      by_cases hne : data = []
      · rw [if_pos hne, hne]
        exact sends_pure io
      rw [if_neg hne]
      rcases send_sent data io with ⟨k, io', hok, hsent⟩ | ⟨rc, io', herror, hsent⟩
      · have hk : 0 < k := pos_of_send hne hok
        have hpos : 0 < data.length := List.length_pos_iff.mpr hne
        have hone : Completes [⟨data, .ok k⟩] (data.take k) := by
          simp [Completes, SendCall.Succeeds, acceptedBytes, SendCall.accepted]
        have hrest : Sends (writeLoop A fuel (data.drop k)) (data.drop k) := by
          apply ih
          rw [List.length_drop]
          omega
        rcases hrest io' with ⟨cs, io'', hok', hsent', hcs⟩ |
          ⟨cs, data', rc, io'', sent, more, herror, hsent', hcs, hsplit, hmore⟩
        · refine .inl ⟨⟨data, .ok k⟩ :: cs, io'',
            (bind_of_ok (onError_of_ok hok)).trans hok', hsent.trans hsent', ?_⟩
          have hboth := hone.append hcs
          rwa [List.take_append_drop] at hboth
        · refine .inr ⟨⟨data, .ok k⟩ :: cs, data', rc, io'', data.take k ++ sent,
            more, (bind_of_ok (onError_of_ok hok)).trans herror,
            hsent.trans hsent', hone.append hcs, ?_, hmore⟩
          rw [List.append_assoc, ← hsplit, List.take_append_drop]
      · exact .inr ⟨[], data, rc, _, [], data,
          bind_of_error (onError_of_error herror), hsent.setError _,
          ⟨by simp, rfl⟩, rfl, hne⟩

theorem stompWriteBuffer_sends (A : Apr) (data : Bytes) :
    Sends (stompWriteBuffer A data) data :=
  writeLoop_sends A (Nat.le_refl _)

/-- Send one more buffer first. -/
theorem Sends.buffer (A : Apr) {x : IoM Unit} {bs : Bytes} (h : Sends x bs)
    (data : Bytes) : Sends (stompWriteBuffer A data >>= fun _ => x) (data ++ bs) :=
  (stompWriteBuffer_sends A data).bind h

end LibStomp.Stream.SendCalls

import LibStomp.Model.Messenger
import LibStomp.Verified.Coupling

/-!
# A process with several messengers

A messenger object belongs to the application, but the `error` records of
`stomp_io.c` and `stomp_engine.c` are static: all messengers of a process write
to the same two.
-/

namespace LibStomp.Model

open LibStomp.Verified.Coupling

/-- What the messengers of a process share: `error` of `stomp_io.c`, and that of
`stomp_engine.c` with the sockets it has created. -/
structure Statics where
  ioError : Status
  engine : Engine
deriving DecidableEq

/-- The messenger objects, by the names the application has for them. -/
abbrev Process (I : Type) := Shared I Messenger Statics

/-- What an operation on the messenger finds. -/
def Process.world {I : Type} (p : Process I) (i : I) : World :=
  ⟨p.own i, p.common.ioError, p.common.engine⟩

/-- One call on a messenger object, with the static records around it. -/
def localStep (A : Apr) (s : Messenger × Statics) (c : Call) :
    Option (Reply × Messenger × Statics) :=
  (step A ⟨s.1, s.2.ioError, s.2.engine⟩ c).map fun (r, w) =>
    (r, w.messenger, ⟨w.ioError, w.engine⟩)

/-- One call on one of the messengers. -/
def processStep (A : Apr) {I : Type} [DecidableEq I] (p : Process I) (c : I × Call) :
    Option (Reply × Process I) :=
  interleave (localStep A) p c

/-- Freshly initialised messengers, before the first error. -/
def Process.init {I : Type} (options : I → UInt32) : Process I where
  own i := (stompMessengerInit (options i)).messenger
  common := ⟨⟨.success, none⟩, ⟨.success, none⟩, []⟩

end LibStomp.Model

import AlertHandoff.Screen.Basic

/-! # What the host does with a screen

The host owns the screen: it registers presenters, raises and dismisses alerts of its own, reads
the feed of one presenter, and says when content of a row is ready.  `Screen.host` carries out
one such call and gives the answer. -/

namespace AlertHandoff

/-- What a host can do with the screen. -/
inductive HostCall where
  | register (kind : Kind) (flag : Flag)
  | raise (kind : Kind) (n : Notice)
  | update (kind : Kind) (key : String) (alert : Bool)
  | dismiss (kind : Kind) (key : String)
  | drain (kind : Kind)
  | prepare (row : String) (flag : Flag) (on : Bool)
deriving DecidableEq, Repr

/-- What the host gets back: nothing, the presenter that was replaced, the feed it asked for, or
word that the kind has no presenter. -/
inductive HostReply where
  | done
  | replaced (p : Presenter)
  | feed (changes : List Change)
  | noPresenter
deriving DecidableEq

namespace Screen

/-- The screen with a new presenter for a kind, on which nothing is alerting. -/
def register (s : Screen) (kind : Kind) (flag : Flag) : Screen :=
  s.setPresenter kind { flag }

/-- The screen once the feed of one kind has been read. -/
def drain (s : Screen) (kind : Kind) : Screen :=
  match s.presenter kind with
  | none => s
  | some p => s.setPresenter kind p.read

/-- The answer of the presenter of a kind, if there is one. -/
def answer (s : Screen) (kind : Kind) (reply : Presenter → HostReply) : HostReply :=
  (s.presenter kind).elim .noPresenter reply

/-- Carries out a call of the host.  What needs a presenter is refused without one; registering
a presenter answers with the one it replaces. -/
def host (s : Screen) : HostCall → Screen × HostReply
  | .register kind flag =>
    (s.register kind flag, (s.presenter kind).elim .done .replaced)
  | .raise kind n => (s.raise kind n, s.answer kind fun _ => .done)
  | .update kind key alert => (s.update kind key alert, s.answer kind fun _ => .done)
  | .dismiss kind key => (s.dismiss kind key, s.answer kind fun _ => .done)
  | .drain kind => (s.drain kind, s.answer kind fun p => .feed p.feed)
  | .prepare row flag on => (s.prepare row flag on, .done)

theorem host_register_fst (s : Screen) (kind k : Kind) (flag : Flag) :
    (s.host (.register kind flag)).1.presenter k =
      if k = kind then some { flag } else s.presenter k := by
  simp [host, register]

end Screen

end AlertHandoff

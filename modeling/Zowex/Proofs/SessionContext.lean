import Zowex.Spec.SessionContext

/-! When no connection is lost: a call that is told of a failure forgets the shared promise, which
must still be the one that it awaited. -/

namespace Zowex.sdk.SessionContext

open Runs

variable {s s' : SessionContext}

/-- The shared promise is that of every object that is not disposed. -/
structure Inv (s : SessionContext) : Prop where
  pending : ∀ ssh object, s.objects[ssh]? = some object → object.promise = .pending →
    s.connectPromise = some ssh
  conn : ∀ ssh, s.sshConn = some ssh → s.connectPromise = some ssh ∧
    ∃ object, s.objects[ssh]? = some object ∧ object.promise = .fulfilled
  kept : ∀ ssh object, s.objects[ssh]? = some object → object.disposed = false →
    object.promise = .pending ∨ s.sshConn = some ssh
  disposing : s.disposed = true → ∀ ssh object, s.objects[ssh]? = some object →
    object.disposed = false → s.disposing = some ssh

theorem update_get (s : SessionContext) (ssh ssh' : ℕ) (f : NodeSSH → NodeSSH) :
    (s.update ssh f).objects[ssh']? =
      (s.objects[ssh']?).map fun object => if ssh = ssh' then f object else object := by
  rw [update, List.getElem?_modify]
  rcases s.objects[ssh']? with _ | object
  · rfl
  · rfl

theorem update_cases {ssh ssh' : ℕ} {f : NodeSSH → NodeSSH} {object : NodeSSH}
    (h : (s.update ssh f).objects[ssh']? = some object) :
    ∃ before, s.objects[ssh']? = some before ∧
      (ssh' = ssh ∧ object = f before ∨ ssh' ≠ ssh ∧ object = before) := by
  rw [update_get, Option.map_eq_some_iff] at h
  obtain ⟨before, hbefore, rfl⟩ := h
  refine ⟨before, hbefore, ?_⟩
  by_cases hssh : ssh = ssh'
  · exact .inl ⟨hssh.symm, if_pos hssh⟩
  · exact .inr ⟨fun h => hssh h.symm, if_neg hssh⟩

theorem Inv.shared (h : Inv s) {ssh : ℕ} {object : NodeSSH}
    (hobject : s.objects[ssh]? = some object) (hkept : object.disposed = false) :
    s.connectPromise = some ssh := by
  rcases h.kept ssh object hobject hkept with hpending | hconn
  · exact h.pending ssh object hobject hpending
  · exact (h.conn ssh hconn).1

theorem Inv.shared_live (h : Inv s) {ssh : ℕ} (hlive : s.Live ssh) :
    s.connectPromise = some ssh := by
  obtain ⟨object, hobject, hlive⟩ := hlive
  apply h.shared hobject
  rw [NodeSSH.live, Bool.and_eq_true] at hlive
  simpa using hlive.1

/-- Nothing is left but a connection that has ended. -/
theorem Inv.no_object (h : Inv s) (hnone : s.connectPromise = none) :
    s.sshConn = none ∧
      ∀ (ssh : ℕ) (object : NodeSSH), s.objects[ssh]? = some object → object.disposed = true := by
  constructor
  · by_contra hconn
    obtain ⟨ssh, hconn⟩ := Option.ne_none_iff_exists'.mp hconn
    rw [(h.conn ssh hconn).1] at hnone
    cases hnone
  · intro ssh object hobject
    by_contra hkept
    rw [h.shared hobject (by simpa using hkept)] at hnone
    cases hnone

/-- An object whose promise and whose end stay as they are. -/
theorem Inv.update {ssh : ℕ} {f : NodeSSH → NodeSSH} (h : Inv s)
    (hsame : ∀ object, (f object).promise = object.promise ∧
      (f object).disposed = object.disposed) : Inv (s.update ssh f) := by
  have hbefore (ssh' : ℕ) (object : NodeSSH)
      (hafter : (s.update ssh f).objects[ssh']? = some object) :
      ∃ before, s.objects[ssh']? = some before ∧ before.promise = object.promise ∧
        before.disposed = object.disposed := by
    obtain ⟨before, hbefore, ⟨-, rfl⟩ | ⟨-, rfl⟩⟩ := update_cases hafter
    · exact ⟨before, hbefore, (hsame before).1.symm, (hsame before).2.symm⟩
    · exact ⟨object, hbefore, rfl, rfl⟩
  refine ⟨?_, ?_, ?_, ?_⟩
  · intro ssh' object hafter hpending
    obtain ⟨before, hobject, hpromise, -⟩ := hbefore ssh' object hafter
    exact h.pending ssh' before hobject (hpromise.trans hpending)
  · intro ssh' hconn
    obtain ⟨hshared, object, hobject, hfulfilled⟩ := h.conn ssh' hconn
    refine ⟨hshared, _, by rw [update_get, hobject, Option.map_some], ?_⟩
    split_ifs
    · exact (hsame object).1.trans hfulfilled
    · exact hfulfilled
  · intro ssh' object hafter hkept
    obtain ⟨before, hobject, hpromise, hdisposed⟩ := hbefore ssh' object hafter
    rw [← hpromise]
    exact h.kept ssh' before hobject (hdisposed.trans hkept)
  · intro hdispose ssh' object hafter hkept
    obtain ⟨before, hobject, -, hdisposed⟩ := hbefore ssh' object hafter
    exact h.disposing hdispose ssh' before hobject (hdisposed.trans hkept)

/-- Disposing of the connection leaves no object. -/
theorem Inv.dispose_conn {ssh : ℕ} (h : Inv s) (hconn : s.sshConn = some ssh) {ssh' : ℕ}
    {object : NodeSSH} (hafter : (s.update ssh NodeSSH.dispose).objects[ssh']? = some object) :
    object.disposed = true ∧ object.promise ≠ .pending := by
  obtain ⟨hshared, settled, hsettled, hfulfilled⟩ := h.conn ssh hconn
  obtain ⟨before, hbefore, ⟨rfl, rfl⟩ | ⟨hne, rfl⟩⟩ := update_cases hafter
  · rw [hsettled] at hbefore
    cases hbefore
    refine ⟨rfl, fun hpending => ?_⟩
    exact absurd (hfulfilled.symm.trans hpending) (by decide)
  · constructor
    · by_contra hkept
      have hother := h.shared hbefore (by simpa using hkept)
      rw [hshared] at hother
      exact hne (Option.some.inj hother).symm
    · intro hpending
      have hother := h.pending ssh' object hbefore hpending
      rw [hshared] at hother
      exact hne (Option.some.inj hother).symm

/-! The steps. -/

theorem Inv.drop_ended (h : Inv s) (hdisposed : s.disposed = false) :
    Inv s.drop_ended ∧ s.drop_ended.disposed = false := by
  rw [SessionContext.drop_ended]
  rcases hconn : s.sshConn with _ | ssh
  · exact ⟨h, hdisposed⟩
  · dsimp only
    split_ifs
    · refine ⟨⟨?_, ?_, ?_, ?_⟩, hdisposed⟩
      · exact fun ssh' object hafter hpending => absurd hpending (h.dispose_conn hconn hafter).2
      · intro ssh' hnone
        cases hnone
      · intro ssh' object hafter hkept
        rw [(h.dispose_conn hconn hafter).1] at hkept
        cases hkept
      · intro hdispose
        exact absurd (hdisposed.symm.trans hdispose) (by decide)
    · exact ⟨h, hdisposed⟩

theorem Inv.ensure_promise (h : Inv s) (hdisposed : s.disposed = false) :
    Inv s.ensure_promise := by
  rw [SessionContext.ensure_promise]
  rcases hshared : s.connectPromise with _ | promise
  · obtain ⟨hconn, hall⟩ := h.no_object hshared
    have hnew (ssh : ℕ) (object : NodeSSH) (hobject : (s.objects ++ [({} : NodeSSH)])[ssh]? = some object)
        (hused : object.promise = .pending ∨ object.disposed = false) :
        ssh = s.objects.length ∧ object = ({} : NodeSSH) := by
      rw [List.getElem?_append] at hobject
      split_ifs at hobject with hold
      · rcases hused with hpending | hkept
        · have hpromise := h.pending ssh object hobject hpending
          rw [hshared] at hpromise
          cases hpromise
        · rw [hall ssh object hobject] at hkept
          cases hkept
      · obtain ⟨hlt, hget⟩ := List.getElem?_eq_some_iff.mp hobject
        rw [List.length_singleton] at hlt
        refine ⟨by omega, ?_⟩
        rw [List.getElem_singleton] at hget
        exact hget.symm
    dsimp only
    refine ⟨?_, ?_, ?_, ?_⟩
    · intro ssh object hobject hpending
      rw [(hnew ssh object hobject (.inl hpending)).1]
    · intro ssh hsome
      rw [show s.sshConn = some ssh from hsome] at hconn
      cases hconn
    · intro ssh object hobject hkept
      rw [(hnew ssh object hobject (.inr hkept)).2]
      exact .inl rfl
    · intro hdispose
      exact absurd (hdisposed.symm.trans hdispose) (by decide)
  · exact h

/-- The calls are not looked at. -/
theorem Inv.calls (h : Inv s) (calls : List SshCall) : Inv { s with calls } :=
  ⟨h.pending, h.conn, h.kept, h.disposing⟩

theorem Inv.getSsh (h : Inv s) (hdisposed : s.disposed = false) : Inv s.getSsh := by
  obtain ⟨hdropped, hstill⟩ := h.drop_ended hdisposed
  have hensured := hdropped.ensure_promise hstill
  rw [SessionContext.getSsh]
  split
  · exact hensured
  · exact hensured.calls _

theorem Inv.dispose (h : Inv s) : Inv s.dispose := by
  rw [SessionContext.dispose]
  rcases hconn : s.sshConn with _ | ssh
  · have hpending (ssh : ℕ) (object : NodeSSH) (hobject : s.objects[ssh]? = some object)
        (hkept : object.disposed = false) : object.promise = .pending := by
      rcases h.kept ssh object hobject hkept with hpending | hsome
      · exact hpending
      · rw [hconn] at hsome
        cases hsome
    refine ⟨h.pending, ?_, ?_, ?_⟩
    · intro ssh hnone
      cases hnone
    · exact fun ssh object hobject hkept => .inl (hpending ssh object hobject hkept)
    · exact fun _ ssh object hobject hkept => h.shared hobject hkept
  · obtain ⟨hshared, settled, hsettled, hfulfilled⟩ := h.conn ssh hconn
    refine ⟨?_, ?_, ?_, ?_⟩
    · exact fun ssh' object hafter hpending => absurd hpending (h.dispose_conn hconn hafter).2
    · intro ssh' hconn'
      have hsame : some ssh = some ssh' := hconn.symm.trans hconn'
      cases hsame
      refine ⟨hshared, settled.dispose, ?_, hfulfilled⟩
      rw [update_get, hsettled, Option.map_some, if_pos rfl]
    · intro ssh' object hafter hkept
      rw [(h.dispose_conn hconn hafter).1] at hkept
      cases hkept
    · intro _ ssh' object hafter hkept
      rw [(h.dispose_conn hconn hafter).1] at hkept
      cases hkept

/-- The connection that has come up is the shared one. -/
theorem Inv.settle_fulfilled {ssh : ℕ} {object : NodeSSH} (h : Inv s)
    (hobject : s.objects[ssh]? = some object) (hpending : object.promise = .pending) :
    Inv { s.update ssh fun object => { object with promise := .fulfilled } with
      sshConn := some ssh } := by
  have hshared := h.pending ssh object hobject hpending
  refine ⟨?_, ?_, ?_, ?_⟩
  · intro ssh' after hafter hstill
    obtain ⟨before, hbefore, ⟨-, rfl⟩ | ⟨-, rfl⟩⟩ := update_cases hafter
    · cases hstill
    · exact h.pending ssh' after hbefore hstill
  · rintro _ ⟨⟩
    refine ⟨hshared, { object with promise := .fulfilled }, ?_, rfl⟩
    rw [update_get, hobject, Option.map_some, if_pos rfl]
  · intro ssh' after hafter hkept
    obtain ⟨before, hbefore, ⟨rfl, rfl⟩ | ⟨hne, rfl⟩⟩ := update_cases hafter
    · exact .inr rfl
    · have hother := h.shared hbefore hkept
      rw [hshared] at hother
      exact absurd (Option.some.inj hother).symm hne
  · intro hdispose ssh' after hafter hkept
    obtain ⟨before, hbefore, ⟨rfl, rfl⟩ | ⟨-, rfl⟩⟩ := update_cases hafter
    · exact h.disposing hdispose ssh' before hbefore hkept
    · exact h.disposing hdispose ssh' after hbefore hkept

theorem Inv.settle_rejected {ssh : ℕ} {object : NodeSSH} (h : Inv s)
    (hobject : s.objects[ssh]? = some object) (hpending : object.promise = .pending) :
    Inv (s.update ssh fun object => { object.dispose with promise := .rejected }) := by
  have hshared := h.pending ssh object hobject hpending
  refine ⟨?_, ?_, ?_, ?_⟩
  · intro ssh' after hafter hstill
    obtain ⟨before, hbefore, ⟨-, rfl⟩ | ⟨-, rfl⟩⟩ := update_cases hafter
    · cases hstill
    · exact h.pending ssh' after hbefore hstill
  · intro ssh' hconn
    obtain ⟨hother, settled, hsettled, hfulfilled⟩ := h.conn ssh' hconn
    rw [hshared] at hother
    cases hother
    rw [hobject] at hsettled
    cases hsettled
    exact absurd (hpending.symm.trans hfulfilled) (by decide)
  · intro ssh' after hafter hkept
    obtain ⟨before, hbefore, ⟨-, rfl⟩ | ⟨-, rfl⟩⟩ := update_cases hafter
    · cases hkept
    · exact h.kept ssh' after hbefore hkept
  · intro hdispose ssh' after hafter hkept
    obtain ⟨before, hbefore, ⟨-, rfl⟩ | ⟨-, rfl⟩⟩ := update_cases hafter
    · cases hkept
    · exact h.disposing hdispose ssh' after hbefore hkept

/-- A failure that is forgotten is that of the shared promise. -/
theorem Inv.forget {promise : ℕ} {object : NodeSSH} (h : Inv s)
    (hobject : s.objects[promise]? = some object) (hrejected : object.promise = .rejected)
    (hcurrent : s.connectPromise = none ∨ s.connectPromise = some promise) :
    Inv { s with connectPromise := none } := by
  have hother {ssh : ℕ} (hshared : s.connectPromise = some ssh) : ssh = promise := by
    rw [hshared] at hcurrent
    rcases hcurrent with hnone | hsame
    · cases hnone
    · exact Option.some.inj hsame
  refine ⟨?_, ?_, h.kept, h.disposing⟩
  · intro ssh pending hpending hstill
    obtain rfl := hother (h.pending ssh pending hpending hstill)
    have hsame : object = pending := Option.some.inj (hobject.symm.trans hpending)
    rw [← hsame, hrejected] at hstill
    cases hstill
  · intro ssh hconn
    obtain ⟨hshared, settled, hsettled, hfulfilled⟩ := h.conn ssh hconn
    obtain rfl := hother hshared
    have hsame : object = settled := Option.some.inj (hobject.symm.trans hsettled)
    rw [← hsame, hrejected] at hfulfilled
    cases hfulfilled

theorem Inv.settled_dispose {ssh : ℕ} {object : NodeSSH} (h : Inv s)
    (hdisposing : s.disposing = some ssh) (hobject : s.objects[ssh]? = some object) :
    (object.promise = .fulfilled → Inv { s.update ssh NodeSSH.dispose with disposing := none }) ∧
      (object.promise = .rejected → Inv { s with disposing := none }) := by
  constructor
  · intro hfulfilled
    refine ⟨?_, ?_, ?_, ?_⟩
    · intro ssh' after hafter hstill
      obtain ⟨before, hbefore, ⟨rfl, rfl⟩ | ⟨-, rfl⟩⟩ := update_cases hafter
      · exact h.pending ssh' before hbefore hstill
      · exact h.pending ssh' after hbefore hstill
    · intro ssh' hconn
      obtain ⟨hshared, settled, hsettled, hsame⟩ := h.conn ssh' hconn
      refine ⟨hshared, _, by rw [update_get, hsettled, Option.map_some], ?_⟩
      split_ifs
      · exact hsame
      · exact hsame
    · intro ssh' after hafter hkept
      obtain ⟨before, hbefore, ⟨-, rfl⟩ | ⟨-, rfl⟩⟩ := update_cases hafter
      · cases hkept
      · exact h.kept ssh' after hbefore hkept
    · intro hdispose ssh' after hafter hkept
      obtain ⟨before, hbefore, ⟨-, rfl⟩ | ⟨hne, rfl⟩⟩ := update_cases hafter
      · cases hkept
      · have hother := h.disposing hdispose ssh' after hbefore hkept
        rw [hdisposing] at hother
        exact absurd (Option.some.inj hother).symm hne
  · intro hrejected
    refine ⟨h.pending, h.conn, h.kept, fun hdispose ssh' after hafter hkept => ?_⟩
    have hother := h.disposing hdispose ssh' after hafter hkept
    rw [hdisposing] at hother
    cases hother
    have hsame : object = after := Option.some.inj (hobject.symm.trans hafter)
    subst hsame
    rcases h.kept ssh object hobject hkept with hpending | hconn
    · rw [hrejected] at hpending
      cases hpending
    · obtain ⟨-, settled, hsettled, hfulfilled⟩ := h.conn ssh hconn
      have hsame : object = settled := Option.some.inj (hobject.symm.trans hsettled)
      rw [← hsame, hrejected] at hfulfilled
      cases hfulfilled

theorem Inv.step {a : Action} (h : Inv s) (hcurrent : s.Current a) (hstep : s.step a = some s') :
    Inv s' := by
  cases a with
  | getSsh =>
    rw [SessionContext.step] at hstep
    split_ifs at hstep with hdisposed
    cases hstep
    exact h.getSsh (by simpa using hdisposed)
  | connected ssh =>
    rw [SessionContext.step] at hstep
    split at hstep
    next =>
      cases hstep
      exact h.update fun _ => ⟨rfl, rfl⟩
    next => cases hstep
  | failed ssh =>
    rw [SessionContext.step] at hstep
    split at hstep
    next =>
      cases hstep
      exact h.update fun _ => ⟨rfl, rfl⟩
    next => cases hstep
  | disconnected ssh =>
    rw [SessionContext.step] at hstep
    split at hstep
    next =>
      cases hstep
      exact h.update fun _ => ⟨rfl, rfl⟩
    next => cases hstep
  | settle ssh =>
    rw [SessionContext.step, Option.bind_eq_some_iff] at hstep
    obtain ⟨object, hobject, hsettle⟩ := hstep
    rw [SessionContext.settle] at hsettle
    split at hsettle
    next hpending _ =>
      cases hsettle
      exact h.settle_fulfilled hobject hpending
    next hpending _ =>
      cases hsettle
      exact h.settle_rejected hobject hpending
    next => cases hsettle
  | resume call =>
    rw [SessionContext.step] at hstep
    split at hstep
    next promise hcall =>
      rw [Option.bind_eq_some_iff] at hstep
      obtain ⟨object, hobject, hresume⟩ := hstep
      rw [SessionContext.resume] at hresume
      split at hresume
      next => cases hresume
      next =>
        cases hresume
        exact h.calls _
      next hrejected =>
        cases hresume
        exact (h.forget hobject hrejected (hcurrent promise hcall)).calls _
    next => cases hstep
  | dispose =>
    rw [SessionContext.step] at hstep
    split_ifs at hstep
    cases hstep
    exact h.dispose
  | settled_dispose =>
    rw [SessionContext.step] at hstep
    split at hstep
    next => cases hstep
    next ssh hdisposing =>
      split at hstep
      next hfulfilled =>
        cases hstep
        obtain ⟨object, hobject, hpromise⟩ := Option.map_eq_some_iff.mp hfulfilled
        exact (h.settled_dispose hdisposing hobject).1 hpromise
      next hrejected =>
        cases hstep
        obtain ⟨object, hobject, hpromise⟩ := Option.map_eq_some_iff.mp hrejected
        exact (h.settled_dispose hdisposing hobject).2 hpromise
      next => cases hstep

/-- What a call returns is the shared connection. -/
theorem Inv.returned {a : Action} {ssh ssh' : ℕ} (h : Inv s) (hcurrent : s.Current a)
    (hreturns : s.returns a = some ssh) (hlive : s.Live ssh') : ssh' = ssh := by
  have hshared := h.shared_live hlive
  cases a with
  | resume call =>
    rw [returns] at hreturns
    split at hreturns
    next promise hcall =>
      split_ifs at hreturns
      cases hreturns
      rcases hcurrent ssh hcall with hnone | hsame
      · rw [hnone] at hshared
        cases hshared
      · rw [hsame] at hshared
        exact (Option.some.inj hshared).symm
    next => cases hreturns
  | _ => cases hreturns

def current (s : SessionContext) : Action → Bool
  | .resume call =>
    match s.calls[call]? with
    | some (.awaiting promise) => s.connectPromise = none || s.connectPromise = some promise
    | _ => true
  | _ => true

end Zowex.sdk.SessionContext

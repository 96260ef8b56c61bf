import Mathlib.Data.List.Induction
import Mathlib.Data.List.Nodup
import Minimosq.Covers
import Minimosq.Trace
/-!
# TableAcl

`broker/table_acl.hpp`: users with a role, rules that grant a role a topic pattern.  `authenticate` scans the whole
table without a branch on what it finds; it is a lookup (`authenticate_run`).  A subscription is granted by a rule whose
pattern covers it, so the rule matches whatever the subscription does.
-/
namespace Minimosq

/-- The template parameters of `TableAcl`. -/
structure AclSizes where
  maxUsers : Nat
  maxRules : Nat
  maxNameLen : Nat := 32
  maxSecretLen : Nat := 32
  maxPatternLen : Nat := 64

/-- `TableAcl::Context`. -/
structure AclContext where
  role : UInt8 := 0
  deriving DecidableEq, Repr

/-- `TableAcl::Access`. -/
inductive Access
  | read | write | readWrite
  deriving DecidableEq, Repr

def Access.code : Access → UInt8
  | .read => 1 | .write => 2 | .readWrite => 3

/-- `TableAcl::User`. -/
structure AclUser where
  name : Bytes
  password : Bytes
  role : UInt8
  deriving DecidableEq, Repr

/-- `TableAcl::Rule`. -/
structure AclRule where
  pattern : Bytes
  role : UInt8
  access : UInt8
  deriving DecidableEq, Repr

structure TableAcl where
  users : List AclUser := []
  rules : List AclRule := []
  anonRole : UInt8 := 0
  anonAllowed : Bool := false
  deriving DecidableEq, Repr

namespace TableAcl

/-! ## Configuration -/

def addUser (Z : AclSizes) (username password : Bytes) (role : UInt8) (acl : TableAcl) : Bool × TableAcl :=
  if username.isEmpty || decide (Z.maxNameLen < username.length) || decide (Z.maxSecretLen < password.length) then
    (false, acl)
  else if acl.users.any (fun existing => existing.name == username) then (false, acl)
  else if Z.maxUsers ≤ acl.users.length then (false, acl)
  else
    let u : AclUser := ⟨assign Z.maxNameLen [] username, assign Z.maxSecretLen [] password, role⟩
    (true, { acl with users := acl.users ++ [u] })

def allowAnonymous (role : UInt8) (acl : TableAcl) : TableAcl := { acl with anonAllowed := true, anonRole := role }

def addRule (Z : AclSizes) (role : UInt8) (pattern : Bytes) (access : Access) (acl : TableAcl) : Bool × TableAcl :=
  if !topicFilterValid pattern || decide (Z.maxPatternLen < pattern.length) then (false, acl)
  else if Z.maxRules ≤ acl.rules.length then (false, acl)
  else
    let r : AclRule := ⟨assign Z.maxPatternLen [] pattern, role, access.code⟩
    (true, { acl with rules := acl.rules ++ [r] })

/-! ## Policy -/

/-- No exit that depends on the data: the differences are gathered over the shorter length. -/
def constantTimeEq (a b : Bytes) : Bool :=
  (a.zip b).foldl (fun diff p => diff ||| (p.1 ^^^ p.2)) (if a.length == b.length then (0 : UInt8) else 1) == 0

/-- The branch-free select: `old` if `take` is 0, `new` if it is 1. -/
def selectRole (take old new : UInt8) : UInt8 :=
  ((old.toUInt32 &&& (take.toUInt32 - 1)) ||| (new.toUInt32 &&& (0 - take.toUInt32))).toUInt8

/-- One user of the scan of `authenticate`: `found` and `role` as they are carried. -/
def scanUser (username supplied : Bytes) (acc : UInt8 × UInt8) (u : AclUser) : UInt8 × UInt8 :=
  let nameHit : UInt8 := if constantTimeEq u.name username then 1 else 0
  let pwHit : UInt8 := if constantTimeEq u.password supplied then 1 else 0
  let hit := nameHit &&& pwHit
  let take := hit &&& (acc.1 ^^^ 1)
  (acc.1 ||| hit, selectRole take acc.2 u.role)

/-- `authenticate`, with the context it leaves. -/
def authenticate (acl : TableAcl) (_clientId : Bytes) (username password : Option Bytes) (ctx : AclContext) :
    ConnackCode × AclContext :=
  match username with
  | none => if !acl.anonAllowed then (.notAuthorized, ctx) else (.accepted, { ctx with role := acl.anonRole })
  | some name =>
    let scan := acl.users.foldl (scanUser name (password.getD [])) (0, 0)
    if scan.1 == 0 then (.badCredentials, ctx) else (.accepted, { ctx with role := scan.2 })

/-- One rule of `allowed`. -/
def ruleGrants (role need : UInt8) (subject : Bytes) (asFilter : Bool) (r : AclRule) : Bool :=
  if r.role != role || r.access &&& need == 0 then false
  else if asFilter then topicFilterCovers r.pattern subject
  else topicMatches r.pattern subject

def allowed (acl : TableAcl) (role need : UInt8) (subject : Bytes) (asFilter : Bool) : Bool :=
  acl.rules.any (ruleGrants role need subject asFilter)

def authorizePublish (acl : TableAcl) (c : AclContext) (topic : Bytes) : Bool :=
  acl.allowed c.role Access.write.code topic false

def authorizeReceive (acl : TableAcl) (c : AclContext) (topic : Bytes) : Bool :=
  acl.allowed c.role Access.read.code topic false

def authorizeSubscribe (acl : TableAcl) (c : AclContext) (filter : Bytes) : Bool :=
  acl.allowed c.role Access.read.code filter true

/-- The policy a broker is given: the context of a CONNECT starts as a fresh one. -/
def security (acl : TableAcl) : Security AclContext where
  authenticate _ clientId username password := acl.authenticate clientId username password {}
  authorizePublish _ := acl.authorizePublish
  authorizeSubscribe _ := acl.authorizeSubscribe
  authorizeReceive _ := acl.authorizeReceive

/-- The calls that configure it. -/
inductive Call
  | addUser (username password : Bytes) (role : UInt8)
  | allowAnonymous (role : UInt8)
  | addRule (role : UInt8) (pattern : Bytes) (access : Access)
  deriving DecidableEq, Repr

def step (Z : AclSizes) (acl : TableAcl) : Call → TableAcl
  | .addUser username password role => (acl.addUser Z username password role).2
  | .allowAnonymous role => acl.allowAnonymous role
  | .addRule role pattern access => (acl.addRule Z role pattern access).2

def run (Z : AclSizes) (calls : List Call) : TableAcl := calls.foldl (step Z) {}

/-! ## The comparison -/

theorem foldl_or_eq_zero : ∀ (l : List (UInt8 × UInt8)) (d : UInt8),
    l.foldl (fun diff p => diff ||| (p.1 ^^^ p.2)) d = 0 ↔ d = 0 ∧ ∀ p ∈ l, p.1 = p.2
  | [], d => by simp
  | p :: l, d => by
    rw [List.foldl_cons, foldl_or_eq_zero l, List.forall_mem_cons, UInt8.or_eq_zero_iff, UInt8.xor_eq_zero_iff,
      and_assoc]

/-- **The constant-time comparison is equality.** -/
theorem constantTimeEq_eq (a b : Bytes) : constantTimeEq a b = decide (a = b) := by
  rw [Bool.eq_iff_iff, constantTimeEq, beq_iff_eq, foldl_or_eq_zero, decide_eq_true_eq]
  constructor
  · rintro ⟨hlen, hall⟩
    have hlen : a.length = b.length := by
      by_contra hne
      rw [if_neg (by simpa using hne)] at hlen
      cases hlen
    refine List.ext_getElem hlen fun i hi hi' => ?_
    exact hall (a[i], b[i]) (List.mem_iff_getElem.2 ⟨i, by rw [List.length_zip]; omega, List.getElem_zip⟩)
  · rintro rfl
    refine ⟨by simp, fun p hp => ?_⟩
    obtain ⟨i, hi, rfl⟩ := List.mem_iff_getElem.1 hp
    rw [List.getElem_zip]

/-! ## The scan -/

/-- What the scan carries: the role of the first user it found, if any. -/
def foundRole (found : Option UInt8) : UInt8 × UInt8 := found.elim (0, 0) (fun role => (1, role))

theorem selectRole_zero (old new : UInt8) : selectRole 0 old new = old := by
  rw [selectRole, show ((0 : UInt8).toUInt32 - 1) = -1 from rfl, show (0 - (0 : UInt8).toUInt32) = 0 from rfl]
  simp

theorem selectRole_one (old new : UInt8) : selectRole 1 old new = new := by
  rw [selectRole, show ((1 : UInt8).toUInt32 - 1) = 0 from rfl, show (0 - (1 : UInt8).toUInt32) = -1 from rfl]
  simp

/-- The user whose name and password these are. -/
def isUser (username supplied : Bytes) (u : AclUser) :
    Bool := decide (u.name = username) && decide (u.password = supplied)

/-- **A round of the scan keeps the first full match.** -/
theorem scanUser_eq (username supplied : Bytes) (found : Option UInt8) (u : AclUser) :
    scanUser username supplied (foundRole found) u =
      foundRole (found.orElse fun _ => if isUser username supplied u then some u.role else none) := by
  have hhit : ((if constantTimeEq u.name username = true then (1 : UInt8) else 0) &&&
      (if constantTimeEq u.password supplied = true then 1 else 0)) = if isUser username supplied u then 1 else 0 := by
    rw [constantTimeEq_eq, constantTimeEq_eq, isUser]
    cases decide (u.name = username) <;> cases decide (u.password = supplied) <;> rfl
  unfold scanUser
  dsimp only
  rw [hhit]
  cases isUser username supplied u with
  | false =>
    cases found with
    | none => simp [foundRole, selectRole_zero]
    | some role => simp [foundRole, selectRole_zero]
  | true =>
    cases found with
    | none => simp [foundRole, selectRole_one]
    | some role => simp [foundRole, selectRole_zero]

theorem scanUsers_eq (username supplied : Bytes) : ∀ (users : List AclUser) (found : Option UInt8),
    users.foldl (scanUser username supplied) (foundRole found) =
      foundRole (found.orElse fun _ => (users.find? (isUser username supplied)).map AclUser.role)
  | [], found => by cases found <;> rfl
  | u :: users, found => by
    rw [List.foldl_cons, scanUser_eq, scanUsers_eq username supplied users, List.find?_cons]
    cases found with
    | some role => rfl
    | none =>
      cases isUser username supplied u with
      | true => rfl
      | false => rfl

/-- **The scan is a lookup.** -/
theorem authenticate_some (acl : TableAcl) (clientId name : Bytes) (password : Option Bytes) (ctx : AclContext) :
    acl.authenticate clientId (some name) password ctx =
      ((acl.users.find? (isUser name (password.getD []))).map AclUser.role).elim (.badCredentials, ctx)
        (fun role => (.accepted, ⟨role⟩)) := by
  have hscan := scanUsers_eq name (password.getD []) acl.users none
  change acl.users.foldl _ (0, 0) = foundRole ((acl.users.find? _).map _) at hscan
  rw [authenticate, hscan]
  cases (acl.users.find? (isUser name (password.getD []))).map AclUser.role with
  | none => rfl
  | some role => rfl

theorem authenticate_none (acl : TableAcl) (clientId : Bytes) (password : Option Bytes) (ctx : AclContext) :
    acl.authenticate clientId none password ctx =
      if acl.anonAllowed then (.accepted, ⟨acl.anonRole⟩) else (.notAuthorized, ctx) := by
  rw [authenticate]
  cases acl.anonAllowed with
  | false => rfl
  | true => rfl

/-! ## What has been registered -/

/-- A call of `add_user` with these arguments that succeeded. -/
def Registered (Z : AclSizes) (calls : List Call) (name password : Bytes) (role : UInt8) : Prop :=
  ∃ before after, calls = before ++ .addUser name password role :: after ∧
    ((run Z before).addUser Z name password role).1 = true

def Call.anonymousRole : Call → Option UInt8
  | .allowAnonymous role => some role
  | _ => none

/-- The role of the last call of `allow_anonymous`, if there was one. -/
def lastAnonymous (calls : List Call) : Option UInt8 := calls.reverse.findSome? Call.anonymousRole

theorem addUser_cases (Z : AclSizes) (name password : Bytes) (role : UInt8) (acl : TableAcl) :
    acl.addUser Z name password role = (false, acl) ∨
      ((∀ u ∈ acl.users, u.name ≠ name) ∧
        acl.addUser Z name password role = (true, { acl with users := acl.users ++ [⟨name, password, role⟩] })) := by
  unfold addUser
  split
  · exact .inl rfl
  rename_i hsizes
  split
  · exact .inl rfl
  rename_i hnew
  split
  · exact .inl rfl
  simp only [Bool.or_eq_true, decide_eq_true_eq, not_or] at hsizes
  refine .inr ⟨?_, ?_⟩
  · simpa using hnew
  · rw [assign, assign, if_neg hsizes.1.2, if_neg hsizes.2]


theorem addRule_cases (Z : AclSizes) (role : UInt8) (pattern : Bytes) (access : Access) (acl : TableAcl) :
    acl.addRule Z role pattern access = (false, acl) ∨
      (topicFilterValid pattern = true ∧
        acl.addRule Z role pattern access =
          (true, { acl with rules := acl.rules ++ [⟨pattern, role, access.code⟩] })) := by
  unfold addRule
  split
  · exact .inl rfl
  rename_i hparts
  split
  · exact .inl rfl
  simp only [Bool.or_eq_true, Bool.not_eq_true', decide_eq_true_eq, not_or, Bool.not_eq_false] at hparts
  exact .inr ⟨hparts.1, by rw [assign, if_neg hparts.2]⟩

/-- The user a call adds, if it does. -/
def added (Z : AclSizes) (acl : TableAcl) : Call → List AclUser
  | .addUser name password role => if (acl.addUser Z name password role).1 then [⟨name, password, role⟩] else []
  | _ => []

/-- **What a call leaves of the table of users**, in which a name stands once. -/
theorem step_users (Z : AclSizes) (acl : TableAcl) (call : Call) :
    (step Z acl call).users = acl.users ++ added Z acl call ∧
      ∀ u ∈ added Z acl call, ∀ v ∈ acl.users, v.name ≠ u.name := by
  cases call with
  | addUser name password role =>
    rcases addUser_cases Z name password role acl with h | ⟨hnew, h⟩
    · simp [step, added, h]
    · simpa [step, added, h] using hnew
  | allowAnonymous role => simp [step, added, allowAnonymous]
  | addRule role pattern access =>
    rcases addRule_cases Z role pattern access acl with h | ⟨-, h⟩
    · simp [step, added, h]
    · simp [step, added, h]

theorem run_append (Z : AclSizes) (calls : List Call) (call : Call) :
    run Z (calls ++ [call]) = step Z (run Z calls) call := List.foldl_concat ..

theorem added_nodup (Z : AclSizes) (acl : TableAcl) (call : Call) : ((added Z acl call).map AclUser.name).Nodup := by
  cases call with
  | addUser name password role =>
    rw [added]
    split
    · simp
    · exact List.nodup_nil
  | allowAnonymous role => exact List.nodup_nil
  | addRule role pattern access => exact List.nodup_nil

/-- **The names in the table are pairwise distinct.** -/
theorem run_names_nodup (Z : AclSizes) (calls : List Call) : ((run Z calls).users.map AclUser.name).Nodup := by
  induction calls using List.reverseRecOn with
  | nil => exact List.nodup_nil
  | append_singleton calls call ih =>
    obtain ⟨husers, hnew⟩ := step_users Z (run Z calls) call
    rw [run_append, husers, List.map_append, List.nodup_append]
    refine ⟨ih, added_nodup Z _ call, ?_⟩
    intro a ha b hb
    obtain ⟨u, hu, rfl⟩ := List.mem_map.1 ha
    obtain ⟨v, hv, rfl⟩ := List.mem_map.1 hb
    exact hnew v hv u hu

theorem mem_added_iff {Z : AclSizes} {acl : TableAcl} {call : Call} {u : AclUser} : u ∈ added Z acl call ↔
    call = .addUser u.name u.password u.role ∧ (acl.addUser Z u.name u.password u.role).1 = true := by
  cases call with
  | addUser name password role =>
    constructor
    · intro h
      rw [added] at h
      split at h
      · rename_i hok
        rw [List.mem_singleton.1 h]
        exact ⟨rfl, hok⟩
      · cases h
    · rintro ⟨he, hok⟩
      cases he
      rw [added, if_pos hok]
      exact List.mem_singleton_self _
  | allowAnonymous role => simp [added]
  | addRule role pattern access => simp [added]

/-- **The users in the table are those registered.** -/
theorem mem_users_iff (Z : AclSizes) (calls : List Call) (u : AclUser) :
    u ∈ (run Z calls).users ↔ Registered Z calls u.name u.password u.role := by
  induction calls using List.reverseRecOn with
  | nil => simp [run, Registered]
  | append_singleton calls call ih =>
    rw [run_append, (step_users Z (run Z calls) call).1, List.mem_append, ih, mem_added_iff]
    constructor
    · rintro (⟨before, after, rfl, hok⟩ | ⟨rfl, hok⟩)
      · exact ⟨before, after ++ [call], by simp, hok⟩
      · exact ⟨calls, [], rfl, hok⟩
    · rintro ⟨before, after, he, hok⟩
      rcases List.eq_nil_or_concat after with rfl | ⟨after', z, rfl⟩
      · obtain ⟨rfl, hcall⟩ := List.append_inj' he rfl
        exact .inr ⟨List.head_eq_of_cons_eq hcall, hok⟩
      · rw [List.concat_eq_append, ← List.cons_append, ← List.append_assoc] at he
        obtain ⟨rfl, -⟩ := List.append_inj' he rfl
        exact .inl ⟨before, after', rfl, hok⟩

theorem run_anonymous (Z : AclSizes) (calls : List Call) :
    lastAnonymous calls = if (run Z calls).anonAllowed then some (run Z calls).anonRole else none := by
  induction calls using List.reverseRecOn with
  | nil => rfl
  | append_singleton calls call ih =>
    have hlast : lastAnonymous (calls ++ [call]) = (call.anonymousRole).orElse fun _ => lastAnonymous calls := by
      rw [lastAnonymous, List.reverse_append, List.reverse_singleton, List.singleton_append, List.findSome?_cons]
      cases call.anonymousRole <;> rfl
    rw [hlast, ih, run_append]
    cases call with
    | addUser name password role =>
      rcases addUser_cases Z name password role (run Z calls) with h | ⟨-, h⟩
      · rw [step, h]
        rfl
      · rw [step, h]
        rfl
    | allowAnonymous role => rfl
    | addRule role pattern access =>
      rcases addRule_cases Z role pattern access (run Z calls) with h | ⟨-, h⟩
      · rw [step, h]
        rfl
      · rw [step, h]
        rfl

theorem find_isUser_iff (Z : AclSizes) (calls : List Call) (name password : Bytes) (role : UInt8) :
    ((run Z calls).users.find? (isUser name password)).map AclUser.role = some role ↔
      Registered Z calls name password role := by
  have hmem := mem_users_iff Z calls ⟨name, password, role⟩
  rw [← hmem]
  constructor
  · intro h
    obtain ⟨u, hu, hrole⟩ := Option.map_eq_some_iff.1 h
    have hthis := List.find?_some hu
    simp only [isUser, Bool.and_eq_true, decide_eq_true_eq] at hthis
    have hin := List.mem_of_find?_eq_some hu
    rwa [show u = ⟨name, password, role⟩ by cases u; simp_all] at hin
  · intro h
    cases hfind : (run Z calls).users.find? (isUser name password) with
    | none =>
      have hno := List.find?_eq_none.1 hfind _ h
      simp [isUser] at hno
    | some u =>
      have hthis := List.find?_some hfind
      simp only [isUser, Bool.and_eq_true, decide_eq_true_eq] at hthis
      -- Names are distinct, so the user found is this one.
      have hsame := List.inj_on_of_nodup_map (run_names_nodup Z calls) (List.mem_of_find?_eq_some hfind) h hthis.1
      rw [hsame]
      rfl

/-- **`authenticate` is a lookup in the table of what was registered**, whatever the calls that configured it. -/
theorem authenticate_run (Z : AclSizes) (calls : List Call) (clientId : Bytes) (username password : Option Bytes)
    (ctx : AclContext) : (∀ role, (run Z calls).authenticate clientId username password ctx = (.accepted, ⟨role⟩) ↔
        (username = none ∧ lastAnonymous calls = some role) ∨
          ∃ name, username = some name ∧ Registered Z calls name (password.getD []) role) ∧
      (((run Z calls).authenticate clientId username password ctx).1 ≠ .accepted →
        (run Z calls).authenticate clientId username password ctx =
          (if username.isNone then .notAuthorized else .badCredentials, ctx)) ∧
      ((run Z calls).users.map AclUser.name).Nodup ∧
      ∀ name secret role, ((run Z calls).addUser Z name secret role).1 = false →
        ((run Z calls).addUser Z name secret role).2 = run Z calls := by
  refine ⟨fun role => ?_, ?_, run_names_nodup Z calls, fun name secret role hfalse => ?_⟩
  · cases username with
    | none =>
      rw [run_anonymous Z calls, authenticate_none]
      cases (run Z calls).anonAllowed with
      | false => simp
      | true => simp
    | some name =>
      rw [authenticate_some]
      simp only [reduceCtorEq, false_and, false_or, Option.some.injEq, exists_eq_left']
      rw [← find_isUser_iff]
      cases ((run Z calls).users.find? (isUser name (password.getD []))).map AclUser.role with
      | none => simp
      | some found => simp
  · cases username with
    | none =>
      rw [authenticate_none]
      cases (run Z calls).anonAllowed with
      | false => exact fun _ => rfl
      | true => exact fun h => absurd rfl h
    | some name =>
      rw [authenticate_some]
      cases ((run Z calls).users.find? (isUser name (password.getD []))).map AclUser.role with
      | none => exact fun _ => rfl
      | some found => exact fun h => absurd rfl h
  · rcases addUser_cases Z name secret role (run Z calls) with h | ⟨-, h⟩
    · rw [h]
    · rw [h] at hfalse
      cases hfalse

/-! ## What a rule grants -/

/-- The rule that grants: its role, its access and what it says of the subject. -/
theorem exists_rule_of_allowed {acl : TableAcl} {role need : UInt8} {subject : Bytes} {asFilter : Bool}
    (h : acl.allowed role need subject asFilter = true) : ∃ r ∈ acl.rules, r.role = role ∧ r.access &&& need ≠ 0 ∧
      (if asFilter then topicFilterCovers r.pattern subject else topicMatches r.pattern subject) = true := by
  obtain ⟨r, hr, hgrants⟩ := List.any_eq_true.1 h
  unfold ruleGrants at hgrants
  split at hgrants
  · cases hgrants
  rename_i hrole
  simp only [Bool.or_eq_true, bne_iff_ne, beq_iff_eq, not_or, Classical.not_not] at hrole
  refine ⟨r, hr, hrole.1, hrole.2, ?_⟩
  split at hgrants
  · rename_i hfilter
    rwa [if_pos hfilter]
  · rename_i hfilter
    rwa [if_neg hfilter]

/-- The patterns in the table are valid filters. -/
theorem run_patterns_valid (Z : AclSizes) (calls : List Call) :
    ∀ r ∈ (run Z calls).rules, topicFilterValid r.pattern = true := by
  induction calls using List.reverseRecOn with
  | nil => intro r hr; cases hr
  | append_singleton calls call ih =>
    rw [run_append]
    cases call with
    | addUser name password role =>
      rcases addUser_cases Z name password role (run Z calls) with h | ⟨-, h⟩
      · rw [step, h]
        exact ih
      · rw [step, h]
        exact ih
    | allowAnonymous role => exact ih
    | addRule role pattern access =>
      rcases addRule_cases Z role pattern access (run Z calls) with h | ⟨hvalid, h⟩
      · rw [step, h]
        exact ih
      · rw [step, h]
        intro r hr
        rcases List.mem_append.1 hr with hr | hr
        · exact ih r hr
        · rw [List.mem_singleton.1 hr]
          exact hvalid

/-- **Subsumption is sound**: a filter that is covered matches no name its cover does not, so a subscription that
`TableAcl` grants, however it was configured, matches no topic that the rule granting it does not match. -/
theorem topicFilterCovers_sound (cover filter : Bytes) (hc : topicFilterValid cover = true)
    (hf : topicFilterValid filter = true) : (topicFilterCovers cover filter = true →
        ∀ n, topicNameValid n = true → topicMatches filter n = true → topicMatches cover n = true) ∧
      ∀ (Z : AclSizes) (calls : List Call) (ctx : AclContext), (run Z calls).authorizeSubscribe ctx filter = true →
        ∃ r ∈ (run Z calls).rules, (r.role = ctx.role ∧ r.access &&& Access.read.code ≠ 0) ∧
          topicFilterCovers r.pattern filter = true ∧
          ∀ n, topicNameValid n = true → topicMatches filter n = true → topicMatches r.pattern n = true := by
  refine ⟨fun hcover n _ hm => topicMatches_of_covers hc hf hcover hm, fun Z calls ctx hgrant => ?_⟩
  obtain ⟨r, hr, hrole, haccess, hcover⟩ := exists_rule_of_allowed hgrant
  rw [if_pos rfl] at hcover
  exact ⟨r, hr, ⟨hrole, haccess⟩, hcover,
    fun n _ hm => topicMatches_of_covers (run_patterns_valid Z calls r hr) hf hcover hm⟩

/-- "a/#" covers "a/+", and a role that may read the one is granted the other. -/
theorem topicFilterCovers_sound_deeper :
    (topicFilterCovers [97, 47, 35] [97, 47, 43] = true ∧ topicMatches [97, 47, 35] [97, 47, 98] = true) ∧
      ∃ r ∈ (run ⟨2, 2, 32, 32, 64⟩ [.addRule 1 [97, 47, 35] .read]).rules,
        topicMatches r.pattern [97, 47, 98] = true := by
  have hsound := topicFilterCovers_sound [97, 47, 35] [97, 47, 43] (by decide +kernel) (by decide +kernel)
  obtain ⟨r, hr, -, -, hmatches⟩ :=
    hsound.2 ⟨2, 2, 32, 32, 64⟩ [.addRule 1 [97, 47, 35] .read] ⟨1⟩ (by decide +kernel)
  have hcover : topicFilterCovers [97, 47, 35] [97, 47, 43] = true := by decide +kernel
  exact ⟨⟨hcover, hsound.1 hcover [97, 47, 98] (by decide +kernel) (by decide +kernel)⟩, r, hr,
    hmatches [97, 47, 98] (by decide +kernel) (by decide +kernel)⟩

end TableAcl

end Minimosq

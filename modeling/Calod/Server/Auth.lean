import Calod.Lib.Map

/-!
# The authentication manager

`AuthManager.authenticate` first asks a cache of accepted candidates, kept under a 64-bit hash of
the candidate, and only then the password hash. The cache is a `DashMap`: a successful `get`
hands out a guard that lives to the end of the block that uses the entry, and `remove` and
`insert` wait until no guard on the map is left. A call that waits for its own guard never
returns; it is `none` here.

* `authenticate_exact_iff` — the sequences of calls whose answers are all right
* `authenticate_blocks` — the right password, given again after the cached entry has expired
-/

namespace Calod.Server

variable {c : AuthCache} {key : String}

/-- What the manager takes from the `argon2` and `twox_hash` crates. -/
structure AuthLib where
  PasswordHash : Type
  /-- `Argon2::hash_password`, rendered as text. -/
  hashPassword : String → List UInt8 → Option String
  /-- `PasswordHash::new`. -/
  parseHash : String → Option PasswordHash
  verifyPassword : String → PasswordHash → Bool
  xxHash64 : List UInt8 → UInt64
  /-- Verification accepts exactly the password that was hashed. -/
  verify_hash : ∀ {password salt text}, hashPassword password salt = some text →
    ∃ h, parseHash text = some h ∧ ∀ q, verifyPassword q h = true ↔ q = password

/-! ## The cache -/

/-- The map of accepted candidates, with the number of guards handed out on it. -/
structure AuthCache where
  entries : Lib.Map String Nat
  guards : Nat

namespace AuthCache

def empty : AuthCache := ⟨∅, 0⟩

/-- `DashMap::get`: a guard comes with the entry. -/
def get (c : AuthCache) (key : String) : Option Nat × AuthCache :=
  match c.entries[key]? with
  | none => (none, c)
  | some expiresAt => (some expiresAt, { c with guards := c.guards + 1 })

def dropGuard (c : AuthCache) : AuthCache := { c with guards := c.guards - 1 }

def remove (c : AuthCache) (key : String) : Option AuthCache :=
  if c.guards = 0 then some { c with entries := c.entries.erase key } else none

def insert (c : AuthCache) (key : String) (expiresAt : Nat) : Option AuthCache :=
  if c.guards = 0 then some { c with entries := c.entries.insert key expiresAt } else none

/-- The block under `if let Some(entry) = self.auth_cache.get(&cache_key)`, and whether it
returned from the call. The entry's guard is alive throughout. -/
def lookup (c : AuthCache) (key : String) (now : Nat) : Option (Bool × AuthCache) :=
  match c.get key with
  | (none, c) => some (false, c)
  | (some expiresAt, c) =>
    if now ≤ expiresAt then some (true, c.dropGuard)
    else (c.remove key).map fun c => (false, c.dropGuard)

theorem lookup_missing (h : c.entries[key]? = none) (now : Nat) :
    c.lookup key now = some (false, c) := by
  rw [lookup, get, h]

theorem lookup_fresh {now expiresAt : Nat} (h : c.entries[key]? = some expiresAt)
    (hnow : now ≤ expiresAt) : c.lookup key now = some (true, c) := by
  rw [lookup, get, h]
  simp [hnow, dropGuard]

/-- An expired entry is removed under its own guard. -/
theorem lookup_expired {now expiresAt : Nat} (h : c.entries[key]? = some expiresAt)
    (hnow : expiresAt < now) : c.lookup key now = none := by
  rw [lookup, get, h]
  simp [remove, Nat.not_le.mpr hnow]

end AuthCache

/-! ## The manager -/

structure AuthManager where
  authRequired : Bool
  /-- Password hashes by user name. -/
  credentials : Lib.Map String String
  authCache : AuthCache
  /-- In nanoseconds, as the clock. -/
  cacheTtl : Nat

/-- One call: its argument, and the clock when it looks at the cached entry and when it has
verified the password. -/
structure AuthCall where
  password : String
  now : Nat
  verified : Nat

variable {cached : Option Nat} {expiresAt : Nat}

namespace AuthManager

def new (authRequired : Bool) : AuthManager :=
  ⟨authRequired, ∅, .empty, 300 * 10 ^ 9⟩

variable (lib : AuthLib)

/-- The password is left out when it cannot be hashed. -/
def addPassword (m : AuthManager) (password : String) (salt : List UInt8) : AuthManager :=
  if !m.authRequired then m
  else match lib.hashPassword password salt with
    | none => m
    | some text => { m with credentials := m.credentials.insert "default" text }

/-- The hash in lower-case hexadecimal digits. -/
def cacheKey (password : String) : String :=
  String.ofList (Nat.toDigits 16 (lib.xxHash64 password.toUTF8.toList).toNat)

/-- The loop over the credentials. -/
def verifies (m : AuthManager) (password : String) : Bool :=
  m.credentials.values.any fun text =>
    match lib.parseHash text with
    | none => false
    | some h => lib.verifyPassword password h

def authenticate (m : AuthManager) (call : AuthCall) : Option (Bool × AuthManager) :=
  if !m.authRequired then some (true, m)
  else
    let key := cacheKey lib call.password
    match m.authCache.lookup key call.now with
    | none => none
    | some (true, cache) => some (true, { m with authCache := cache })
    | some (false, cache) =>
      if m.verifies lib call.password then
        (cache.insert key (call.verified + m.cacheTtl)).map fun cache =>
          (true, { m with authCache := cache })
      else some (false, { m with authCache := cache })

/-- What a sequence of calls returns, up to the first that does not return. -/
def answers (m : AuthManager) : List AuthCall → List (Option Bool)
  | [] => []
  | call :: calls =>
    match m.authenticate lib call with
    | none => [none]
    | some (accepted, m) => some accepted :: answers m calls

/-! ## What a manager with one password answers -/

variable {lib}

/-- A manager that knows the password `pw` and has cached it until `cached`, or not at all. -/
structure Knows (lib : AuthLib) (m : AuthManager) (pw : String) (cached : Option Nat) : Prop where
  required : m.authRequired = true
  verifies : ∀ q, m.verifies lib q = true ↔ q = pw
  cache : m.authCache = match cached with
    | none => AuthCache.empty
    | some expiresAt => ⟨(∅ : Lib.Map String Nat).insert (cacheKey lib pw) expiresAt, 0⟩

variable {m : AuthManager} {pw : String}

theorem knows_addPassword {salt : List UInt8} (h : lib.hashPassword pw salt ≠ none) :
    Knows lib ((new true).addPassword lib pw salt) pw none := by
  obtain ⟨text, ht⟩ := Option.ne_none_iff_exists'.mp h
  have hnew : (new true).addPassword lib pw salt
      = { new true with credentials := (∅ : Lib.Map String String).insert "default" text } := by
    simp [addPassword, new, ht]
  rw [hnew]
  refine ⟨rfl, fun q => ?_, rfl⟩
  obtain ⟨parsed, hp, hv⟩ := lib.verify_hash ht
  rw [AuthManager.verifies, List.any_eq_true]
  constructor
  · rintro ⟨t, htm, hq⟩
    obtain ⟨user, hu⟩ := Lib.Map.mem_values.mp htm
    rw [Lib.Map.get_insert] at hu
    split at hu
    · cases hu
      rw [hp] at hq
      exact (hv q).mp hq
    · simp at hu
  · intro hq
    refine ⟨text, Lib.Map.mem_values.mpr ⟨"default", Lib.Map.get_insert_self _ _ _⟩, ?_⟩
    rw [hp]
    exact (hv q).mpr hq

namespace Knows

/-- The call past its first test. -/
theorem authenticate_eq (hk : Knows lib m pw cached) (call : AuthCall) :
    m.authenticate lib call =
      match m.authCache.lookup (cacheKey lib call.password) call.now with
      | none => none
      | some (true, cache) => some (true, { m with authCache := cache })
      | some (false, cache) =>
        if m.verifies lib call.password then
          (cache.insert (cacheKey lib call.password) (call.verified + m.cacheTtl)).map
            fun cache => (true, { m with authCache := cache })
        else some (false, { m with authCache := cache }) := by
  rw [authenticate, if_neg (by simp [hk.required])]

/-- A candidate whose hash is not cached is judged by the password hash. -/
theorem authenticate_uncached (hk : Knows lib m pw cached) {call : AuthCall}
    (h : m.authCache.entries[cacheKey lib call.password]? = none) (hq : call.password ≠ pw) :
    m.authenticate lib call = some (false, m) := by
  have hv : m.verifies lib call.password = false := by
    rw [← Bool.not_eq_true, hk.verifies]
    exact hq
  rw [hk.authenticate_eq, AuthCache.lookup_missing h]
  simp [hv]

/-- The first call with the password caches it. -/
theorem authenticate_first (hk : Knows lib m pw none) {call : AuthCall} (hq : call.password = pw) :
    ∃ m', m.authenticate lib call = some (true, m') ∧
      Knows lib m' pw (some (call.verified + m.cacheTtl)) := by
  subst hq
  have hc : m.authCache = AuthCache.empty := hk.cache
  have hv : m.verifies lib call.password = true := (hk.verifies _).mpr rfl
  refine ⟨{ m with authCache := ⟨(∅ : Lib.Map String Nat).insert
    (cacheKey lib call.password) (call.verified + m.cacheTtl), 0⟩ }, ?_,
    ⟨hk.required, hk.verifies, rfl⟩⟩
  have hl : m.authCache.lookup (cacheKey lib call.password) call.now
      = some (false, AuthCache.empty) := by
    rw [hc]
    exact AuthCache.lookup_missing (Lib.Map.get_empty _) _
  rw [hk.authenticate_eq, hl]
  show (if m.verifies lib call.password = true then _ else _) = _
  rw [if_pos hv]
  rfl

theorem get_cached (hk : Knows lib m pw (some expiresAt)) (key : String) :
    m.authCache.entries[key]? = if cacheKey lib pw = key then some expiresAt else none := by
  rw [hk.cache]
  show ((∅ : Lib.Map String Nat).insert (cacheKey lib pw) expiresAt)[key]? = _
  rw [Lib.Map.get_insert, Lib.Map.get_empty]

/-- Once the password is cached, the answers are right as long as only the password has its
hash and the entry has not expired. -/
theorem answers_cached (hk : Knows lib m pw (some expiresAt)) (calls : List AuthCall) :
    m.answers lib calls = calls.map (fun c => some (decide (c.password = pw))) ↔
      ∀ c ∈ calls, cacheKey lib c.password = cacheKey lib pw →
        c.password = pw ∧ c.now ≤ expiresAt := by
  induction calls with
  | nil => simp [answers]
  | cons call calls ih =>
    rw [answers, List.map_cons, List.forall_mem_cons, ← ih]
    by_cases hkey : cacheKey lib call.password = cacheKey lib pw
    · have hget : m.authCache.entries[cacheKey lib call.password]? = some expiresAt := by
        rw [hk.get_cached, if_pos hkey.symm]
      by_cases hnow : call.now ≤ expiresAt
      · have ha : m.authenticate lib call = some (true, m) := by
          rw [hk.authenticate_eq, AuthCache.lookup_fresh hget hnow]
        simp [ha, hkey, hnow, eq_comm]
      · have ha : m.authenticate lib call = none := by
          rw [hk.authenticate_eq, AuthCache.lookup_expired hget (Nat.not_le.mp hnow)]
        simp [ha, hkey, hnow]
    · have hget : m.authCache.entries[cacheKey lib call.password]? = none := by
        rw [hk.get_cached, if_neg (Ne.symm hkey)]
      have hq : call.password ≠ pw := fun h => hkey (by rw [h])
      simp [hk.authenticate_uncached hget hq, hkey, hq]

/-- Up to the first call with the password every answer is right. -/
theorem answers_uncached (hk : Knows lib m pw none) : ∀ calls : List AuthCall,
    m.answers lib calls = calls.map (fun c => some (decide (c.password = pw))) ↔
      ∀ before first after, calls = before ++ first :: after → first.password = pw →
        (∀ c ∈ before, c.password ≠ pw) → ∀ c ∈ after,
          cacheKey lib c.password = cacheKey lib pw →
            c.password = pw ∧ c.now ≤ first.verified + m.cacheTtl
  | [] => by simp [answers]
  | call :: calls => by
    rw [answers, List.map_cons]
    by_cases hq : call.password = pw
    · obtain ⟨m', ha, hk'⟩ := hk.authenticate_first hq
      rw [ha]
      show some true :: m'.answers lib calls = _ ↔ _
      rw [decide_eq_true hq, List.cons_inj_right, hk'.answers_cached]
      constructor
      · intro h before first after heq hf hb
        cases before with
        | nil =>
          obtain ⟨rfl, rfl⟩ := List.cons.inj heq
          exact h
        | cons b before =>
          obtain ⟨rfl, -⟩ := List.cons.inj heq
          exact absurd hq (hb _ List.mem_cons_self)
      · intro h
        exact h [] call calls rfl hq (by simp)
    · have hget : m.authCache.entries[cacheKey lib call.password]? = none := by
        rw [hk.cache]
        exact Lib.Map.get_empty _
      rw [hk.authenticate_uncached hget hq]
      show some false :: m.answers lib calls = _ ↔ _
      rw [decide_eq_false hq, List.cons_inj_right, hk.answers_uncached calls]
      constructor
      · intro h before first after heq hf hb
        cases before with
        | nil =>
          obtain ⟨rfl, -⟩ := List.cons.inj heq
          exact absurd hf hq
        | cons b before =>
          obtain ⟨rfl, rfl⟩ := List.cons.inj heq
          exact h before first after rfl hf fun c hc => hb c (List.mem_cons_of_mem _ hc)
      · intro h before first after heq hf hb
        refine h (call :: before) first after (by rw [heq, List.cons_append]) hf ?_
        exact List.forall_mem_cons.mpr ⟨hq, hb⟩

end Knows

/-- **The sequences of calls answered rightly.** Every call returns, with `true` exactly for the
password, if and only if after the first call with the password no other candidate with its
hash is tried, and the password itself not later than the cached entry's expiry, 300 seconds
after that first call. -/
theorem authenticate_exact_iff (pw : String) (salt : List UInt8)
    (hset : lib.hashPassword pw salt ≠ none) (calls : List AuthCall) :
    ((new true).addPassword lib pw salt).answers lib calls
        = calls.map (fun c => some (decide (c.password = pw))) ↔
      ∀ before first after, calls = before ++ first :: after → first.password = pw →
        (∀ c ∈ before, c.password ≠ pw) → ∀ c ∈ after,
          cacheKey lib c.password = cacheKey lib pw →
            c.password = pw ∧ c.now ≤ first.verified + 300 * 10 ^ 9 := by
  have hk := knows_addPassword hset
  have httl : ((new true).addPassword lib pw salt).cacheTtl = 300 * 10 ^ 9 := by
    rw [addPassword]
    simp only [new]
    cases lib.hashPassword pw salt <;> rfl
  rw [hk.answers_uncached, httl]

namespace Sample

/-- Hashing that keeps the password as it is, and the length for the cache key. -/
def plain : AuthLib where
  PasswordHash := String
  hashPassword password _ := some password
  parseHash text := some text
  verifyPassword := fun candidate h => candidate = h
  xxHash64 bytes := UInt64.ofNat bytes.length
  verify_hash h := ⟨_, rfl, fun q => by cases h; simp⟩

/-- The 16 bytes that `add_password` draws. -/
def salt : List UInt8 := List.range 16 |>.map UInt8.ofNat

def manager : AuthManager := (new true).addPassword plain "secret" salt

/-- A call that takes no time. -/
def call (password : String) (now : Nat) : AuthCall := ⟨password, now, now⟩

end Sample

open Sample in
theorem authenticate_exact_within_ttl :
    manager.answers plain [call "guess" 0, call "secret" 1, call "secret" (200 * 10 ^ 9)]
      = [some false, some true, some true] := by
  have hcalls : ∀ c ∈ [call "guess" 0, call "secret" 1, call "secret" (200 * 10 ^ 9)],
      cacheKey plain c.password = cacheKey plain "secret" →
        c.password = "secret" ∧ c.now ≤ 300 * 10 ^ 9 := by
    decide +kernel
  refine (@authenticate_exact_iff plain "secret" salt (by decide) _).mpr ?_
  intro before first after heq hf hb c hc hkey
  obtain ⟨hpw, hnow⟩ := hcalls c (by rw [heq]; simp [hc]) hkey
  exact ⟨hpw, Nat.le_add_left_of_le hnow⟩

open Sample in
/-- The right password again after 300 seconds: the call waits for its own guard. -/
theorem authenticate_blocks :
    manager.answers plain [call "secret" 0, call "secret" (300 * 10 ^ 9 + 1)]
      = [some true, none] := by
  decide +kernel

end AuthManager
end Calod.Server

import D2PC.Properties.Durability
import D2PC.Protocol.Reads

/-!
# What a read of several keys records

`MultiGet` asks the shards of its keys one after the other, with one promise for all of them. A
promise has one timestamp, so all keys of a shard are recorded at the timestamp of the first
version of the reply, and the call returns the code of the shard that was asked last, unless one
replied with a failure.

* `readShards_ok_iff` : when the loop over the shards returns `REPLY_OK`;
* `readShards_recorded` : the timestamps in the read sets after the loop;
* `RecordsReads` : what the call owes its caller;
* `multiGet_records_iff` : it is kept exactly for `Faithful` answers;
* `multiGet_mixed_versions`, `multiGet_hidden_timeout` : two keys of one shard with different
  versions, and a timeout that the next shard hides.
-/

namespace D2PC

namespace Client

variable {env : ClientEnv} {answers : Shard → Answer} {s s' : Shard} {keys : List Key} {key : Key}
variable {p : Promise} {c : Client}

/-! ### Answers -/

/-- The timestamp a promise gets from a reply. -/
def Answer.stamp : Answer → Timestamp
  | .reply m => (m.keys.head?.map fun v => ⟨v.timestamp, 0⟩).getD {}
  | .timeout => {}

/-- The answer is a reply that lists the key with this version. -/
def Answer.Lists (key : Key) (t : Timestamp) : Answer → Prop
  | .reply m => ∃ v ∈ m.keys, v.key = key ∧ (⟨v.timestamp, 0⟩ : Timestamp) = t
  | .timeout => False

instance (key : Key) (t : Timestamp) (a : Answer) : Decidable (a.Lists key t) :=
  match a with
  | .reply m => inferInstanceAs (Decidable (∃ v ∈ m.keys, v.key = key ∧ _ = t))
  | .timeout => inferInstanceAs (Decidable False)

theorem Answer.fulfil_timestamp {a : Answer} (h : a.code = replyOk) :
    (a.fulfil p).timestamp = a.stamp := by
  cases a with
  | timeout => cases h
  | reply m =>
      simp only [fulfil, stamp]
      cases m.keys with
      | nil => rfl
      | cons v vs => rfl

/-! ### The buffers -/

theorem buffered_insert_eq (c : Client) (txn : Transaction) :
    ({ c with txns := c.txns.insert s txn } : Client).buffered env s' =
      if s' = s then txn else c.buffered env s' := by
  unfold buffered
  rw [Table.lookup_insert_eq]
  split <;> rfl

theorem buffered_recordReads (t : Timestamp) (keys : List Key) (c : Client) (hne : s' ≠ s) :
    (recordReads env s t keys c).buffered env s' = c.buffered env s' := by
  induction keys generalizing c with
  | nil => rfl
  | cons key keys ih =>
      show (recordReads env s t keys _).buffered env s' = _
      rw [ih, buffered_insert_eq, if_neg hne]

/-- A key that is recorded gets the timestamp, the others keep theirs. -/
theorem readSet_recordReads (t : Timestamp) (keys : List Key) (c : Client) :
    ((recordReads env s t keys c).buffered env s).readSet.lookup key =
      if key ∈ keys then some t else (c.buffered env s).readSet.lookup key := by
  induction keys generalizing c with
  | nil => rfl
  | cons key' keys ih =>
      show ((recordReads env s t keys _).buffered env s).readSet.lookup key = _
      rw [ih, buffered_insert_eq, if_pos rfl, Transaction.addReadSet]
      show (if key ∈ keys then some t else ((c.buffered env s).readSet.insert key' t).lookup key) = _
      rw [Table.lookup_insert_eq]
      by_cases hkeys : key ∈ keys
      · rw [if_pos hkeys, if_pos (List.mem_cons_of_mem _ hkeys)]
      · rw [if_neg hkeys]
        by_cases heq : key = key'
        · rw [if_pos heq, if_pos (by rw [heq]; exact List.mem_cons_self ..)]
        · rw [if_neg heq, if_neg]
          exact fun hmem => (List.mem_cons.1 hmem).elim heq hkeys

theorem buffered_recordAnswer (keys : List Key) (p : Promise) (c : Client) (hne : s' ≠ s) :
    (recordAnswer env s keys p c).buffered env s' = c.buffered env s' := by
  unfold recordAnswer
  split
  · exact buffered_recordReads p.timestamp keys c hne
  · rfl

/-! ### The loop -/

/-- Shards that are not asked are not touched. -/
theorem readShards_buffered (l : List (Shard × List Key)) (p : Promise) (c : Client)
    (hs : s ∉ l.map Prod.fst) :
    (readShards env answers l p c).2.buffered env s = c.buffered env s := by
  induction l generalizing p c with
  | nil => rfl
  | cons q l ih =>
      rw [List.map_cons, List.mem_cons, not_or] at hs
      simp only [readShards]
      split
      · exact buffered_recordAnswer q.2 _ c hs.1
      · rw [ih _ _ hs.2, buffered_recordAnswer q.2 _ c hs.1]

/-- The code of the loop: no shard replied with a failure, and the last one is fine. -/
theorem readShards_ok_iff (q : Shard × List Key) (l : List (Shard × List Key)) (p : Promise)
    (c : Client) :
    (readShards env answers (q :: l) p c).1 = replyOk ↔
      (∀ r ∈ q :: l, (answers r.1).code ≠ replyFail) ∧
        (answers ((q :: l).getLast (List.cons_ne_nil q l)).1).code = replyOk := by
  induction l generalizing q p c with
  | nil =>
      simp only [readShards, Answer.fulfil_reply, ite_self, List.mem_singleton, forall_eq,
        List.getLast_singleton]
      refine ⟨fun h => ⟨?_, h⟩, And.right⟩
      rw [h]
      decide
  | cons q' l ih =>
      rw [readShards, Answer.fulfil_reply, List.getLast_cons_cons]
      by_cases hfail : (answers q.1).code = replyFail
      · simp only [if_pos hfail]
        refine iff_of_false ?_ fun h => h.1 q (List.mem_cons_self ..) hfail
        rw [hfail]
        decide
      · simp only [if_neg hfail]
        rw [ih, List.forall_mem_cons (a := q)]
        exact ⟨fun h => ⟨⟨hfail, h.1⟩, h.2⟩, fun h => ⟨h.1.2, h.2⟩⟩

/-- A loop that is not cut short records the keys of every shard that is fine. -/
theorem readShards_recorded (l : List (Shard × List Key)) (p : Promise) (c : Client)
    (hnodup : (l.map Prod.fst).Nodup) (hfine : ∀ q ∈ l, (answers q.1).code ≠ replyFail)
    (hmem : (s, keys) ∈ l) (hok : (answers s).code = replyOk) (hkey : key ∈ keys) :
    ((readShards env answers l p c).2.buffered env s).readSet.lookup key =
      some (answers s).stamp := by
  induction l generalizing p c with
  | nil => cases hmem
  | cons q l ih =>
      rw [List.map_cons, List.nodup_cons] at hnodup
      rw [readShards, Answer.fulfil_reply, if_neg (hfine q (List.mem_cons_self ..))]
      rcases List.mem_cons.1 hmem with rfl | hmem
      · rw [readShards_buffered l _ _ hnodup.1]
        unfold recordAnswer
        rw [Answer.fulfil_reply, if_pos hok, readSet_recordReads, if_pos hkey,
          Answer.fulfil_timestamp hok]
      · exact ih _ _ hnodup.2 (fun q' hq' => hfine q' (List.mem_cons_of_mem _ hq')) hmem

/-! ### The shards that are asked -/

/-- Each shard is asked for its keys, if there are any. -/
theorem mem_askedShards {q : Shard × List Key} :
    q ∈ askedShards env keys ↔ q.1 < env.cfg.nshards ∧ q.2 ≠ [] ∧
      q.2 = keys.filter fun key => env.cfg.keyToShard key = q.1 := by
  unfold askedShards
  rw [List.mem_filter, List.mem_map]
  constructor
  · rintro ⟨⟨s, hs, rfl⟩, hne⟩
    exact ⟨List.mem_range.1 hs, of_decide_eq_true hne, rfl⟩
  · rintro ⟨hs, hne, hkeys⟩
    exact ⟨⟨q.1, List.mem_range.2 hs, Prod.ext rfl hkeys.symm⟩, decide_eq_true hne⟩

theorem asked_of_mem (hkey : key ∈ keys) (hlt : env.cfg.keyToShard key < env.cfg.nshards) :
    ∃ q ∈ askedShards env keys, q.1 = env.cfg.keyToShard key ∧ key ∈ q.2 := by
  have hmem : key ∈ keys.filter fun key' => env.cfg.keyToShard key' = env.cfg.keyToShard key :=
    List.mem_filter.2 ⟨hkey, decide_eq_true rfl⟩
  exact ⟨(env.cfg.keyToShard key, _), mem_askedShards.2 ⟨hlt, List.ne_nil_of_mem hmem, rfl⟩, rfl,
    hmem⟩

theorem asked_key {q : Shard × List Key} (hq : q ∈ askedShards env keys) :
    ∃ key ∈ keys, env.cfg.keyToShard key = q.1 := by
  obtain ⟨_, hne, heq⟩ := mem_askedShards.1 hq
  obtain ⟨key, hkey⟩ := List.exists_mem_of_ne_nil q.2 hne
  rw [heq, List.mem_filter] at hkey
  exact ⟨key, hkey.1, of_decide_eq_true hkey.2⟩

/-- The shards are asked in the order of their numbers. -/
theorem askedShards_sorted : (askedShards env keys).Pairwise fun q r => q.1 < r.1 := by
  unfold askedShards
  apply List.Pairwise.filter
  rw [List.pairwise_map]
  exact List.pairwise_lt_range

theorem askedShards_nodup : ((askedShards env keys).map Prod.fst).Nodup := by
  rw [List.Nodup, List.pairwise_map]
  exact askedShards_sorted.imp fun h => ne_of_lt h

/-- The last shard that is asked has the greatest number. -/
theorem le_last_asked {l : List (Shard × List Key)} (hsorted : l.Pairwise fun q r => q.1 < r.1)
    {q : Shard × List Key} (hq : q ∈ l) : q.1 ≤ (l.getLast (List.ne_nil_of_mem hq)).1 := by
  have : Std.Refl fun q r : Shard × List Key => q.1 ≤ r.1 := ⟨fun q => le_refl q.1⟩
  exact (hsorted.imp fun h => le_of_lt h).rel_getLast hq

/-! ### The contract -/

/-- What `MultiGet` owes its caller: with `REPLY_OK` every key is in the read set of its shard
at the version the shard replied for it, and a shard that failed or timed out is reported. -/
structure RecordsReads (env : ClientEnv) (answers : Shard → Answer) (keys : List Key)
    (c : Client) : Prop where
  recorded : ∀ c', multiGetReturns env answers keys c = some (replyOk, c') → ∀ key ∈ keys,
    ∃ t, (c'.buffered env (env.cfg.keyToShard key)).readSet.lookup key = some t ∧
      (answers (env.cfg.keyToShard key)).Lists key t
  reported : ∀ code c', multiGetReturns env answers keys c = some (code, c') →
    (∃ key ∈ keys, (answers (env.cfg.keyToShard key)).code ≠ replyOk) → code ≠ replyOk

/-- The answers `MultiGet` handles: some shard replies with a failure, or the last one does not
answer `REPLY_OK`, or all do and list their keys at the version they list first. -/
def Faithful (env : ClientEnv) (answers : Shard → Answer) (keys : List Key) : Prop :=
  (∃ key ∈ keys, (answers (env.cfg.keyToShard key)).code = replyFail) ∨
  (∃ key ∈ keys, (∀ key' ∈ keys, env.cfg.keyToShard key' ≤ env.cfg.keyToShard key) ∧
    (answers (env.cfg.keyToShard key)).code ≠ replyOk) ∨
  ∀ key ∈ keys, (answers (env.cfg.keyToShard key)).code = replyOk ∧
    (answers (env.cfg.keyToShard key)).Lists key (answers (env.cfg.keyToShard key)).stamp

/-- When a call returns `REPLY_OK`. -/
theorem multiGetReturns_ok (hkeys : ∀ key ∈ keys, env.cfg.keyToShard key < env.cfg.nshards)
    {code : ℕ} {c' : Client} (h : multiGetReturns env answers keys c = some (code, c')) :
    code = replyOk ↔ (∀ key ∈ keys, (answers (env.cfg.keyToShard key)).code ≠ replyFail) ∧
      ∀ key ∈ keys, (∀ key' ∈ keys, env.cfg.keyToShard key' ≤ env.cfg.keyToShard key) →
        (answers (env.cfg.keyToShard key)).code = replyOk := by
  unfold multiGetReturns at h
  cases hasked : askedShards env keys with
  | nil =>
      rw [hasked] at h
      cases h
  | cons q l =>
      rw [hasked] at h
      have hcode : _ = code := congrArg Prod.fst (Option.some.inj h)
      rw [← hcode, readShards_ok_iff]
      have hsorted : (q :: l).Pairwise fun q r => q.1 < r.1 := by
        rw [← hasked]
        exact askedShards_sorted
      have hshard : ∀ key ∈ keys, ∃ r ∈ q :: l, r.1 = env.cfg.keyToShard key := by
        intro key hkey
        obtain ⟨r, hr, heq, _⟩ := asked_of_mem hkey (hkeys key hkey)
        exact ⟨r, by rw [← hasked]; exact hr, heq⟩
      have hback : ∀ r ∈ q :: l, ∃ key ∈ keys, env.cfg.keyToShard key = r.1 := by
        intro r hr
        rw [← hasked] at hr
        exact asked_key hr
      refine and_congr ⟨fun hfine key hkey => ?_, fun hfine r hr => ?_⟩
        ⟨fun hlast key hkey hmax => ?_, fun hlast => ?_⟩
      · obtain ⟨r, hr, heq⟩ := hshard key hkey
        rw [← heq]
        exact hfine r hr
      · obtain ⟨key, hkey, heq⟩ := hback r hr
        rw [← heq]
        exact hfine key hkey
      · -- the shard of the key is the last one
        obtain ⟨r, hr, heq⟩ := hshard key hkey
        obtain ⟨key', hkey', heq'⟩ := hback _ (List.getLast_mem (List.cons_ne_nil q l))
        have hle := le_last_asked hsorted hr
        have hge := hmax key' hkey'
        rw [heq', ← heq] at hge
        rw [← heq, le_antisymm hle hge]
        exact hlast
      · obtain ⟨key, hkey, heq⟩ := hback _ (List.getLast_mem (List.cons_ne_nil q l))
        rw [← heq]
        refine hlast key hkey fun key' hkey' => ?_
        obtain ⟨r, hr, heq'⟩ := hshard key' hkey'
        rw [← heq', heq]
        exact le_last_asked hsorted hr

/-- The read sets after a call that was not cut short. -/
theorem multiGetReturns_recorded (hkeys : ∀ key ∈ keys, env.cfg.keyToShard key < env.cfg.nshards)
    {code : ℕ} {c' : Client} (h : multiGetReturns env answers keys c = some (code, c'))
    (hfine : ∀ key ∈ keys, (answers (env.cfg.keyToShard key)).code ≠ replyFail)
    (hkey : key ∈ keys) (hok : (answers (env.cfg.keyToShard key)).code = replyOk) :
    (c'.buffered env (env.cfg.keyToShard key)).readSet.lookup key =
      some (answers (env.cfg.keyToShard key)).stamp := by
  unfold multiGetReturns at h
  cases hasked : askedShards env keys with
  | nil =>
      rw [hasked] at h
      cases h
  | cons q l =>
      rw [hasked] at h
      have hclient : _ = c' := congrArg Prod.snd (Option.some.inj h)
      obtain ⟨⟨s, ks⟩, hr, heq, hmem⟩ := asked_of_mem hkey (hkeys key hkey)
      have hs : s = env.cfg.keyToShard key := heq
      subst hs
      rw [hasked] at hr
      rw [← hclient]
      refine readShards_recorded (q :: l) _ c ?_ (fun r hr => ?_) hr hok hmem
      · rw [← hasked]
        exact askedShards_nodup
      · rw [← hasked] at hr
        obtain ⟨key', hkey', heq'⟩ := asked_key hr
        rw [← heq']
        exact hfine key' hkey'

/-- **`MultiGet` keeps its contract exactly for faithful answers.** -/
theorem multiGet_records_iff (hkeys : ∀ key ∈ keys, env.cfg.keyToShard key < env.cfg.nshards) :
    RecordsReads env answers keys c ↔ Faithful env answers keys := by
  constructor
  · intro h
    by_cases hfail : ∃ key ∈ keys, (answers (env.cfg.keyToShard key)).code = replyFail
    · exact .inl hfail
    by_cases hlast : ∃ key ∈ keys,
        (∀ key' ∈ keys, env.cfg.keyToShard key' ≤ env.cfg.keyToShard key) ∧
        (answers (env.cfg.keyToShard key)).code ≠ replyOk
    · exact .inr (.inl hlast)
    push Not at hfail hlast
    refine .inr (.inr fun key hkey => ?_)
    -- the call returns, and with `REPLY_OK`
    obtain ⟨q, hq, _⟩ := asked_of_mem hkey (hkeys key hkey)
    obtain ⟨⟨code, c'⟩, hreturns⟩ : ∃ r, multiGetReturns env answers keys c = some r := by
      unfold multiGetReturns
      cases hasked : askedShards env keys with
      | nil =>
          rw [hasked] at hq
          cases hq
      | cons q' l => exact ⟨_, rfl⟩
    have hcode : code = replyOk := (multiGetReturns_ok hkeys hreturns).2 ⟨hfail, hlast⟩
    subst hcode
    have hok : (answers (env.cfg.keyToShard key)).code = replyOk := by
      by_contra hnot
      exact h.reported replyOk c' hreturns ⟨key, hkey, hnot⟩ rfl
    obtain ⟨t, ht, hlists⟩ := h.recorded c' hreturns key hkey
    rw [multiGetReturns_recorded hkeys hreturns hfail hkey hok] at ht
    obtain rfl := Option.some.inj ht
    exact ⟨hok, hlists⟩
  · intro h
    -- unless the answers are all fine the call does not return `REPLY_OK`
    have hfaithful : ∀ c', multiGetReturns env answers keys c = some (replyOk, c') →
        ∀ key ∈ keys, (answers (env.cfg.keyToShard key)).code = replyOk ∧
          (answers (env.cfg.keyToShard key)).Lists key
            (answers (env.cfg.keyToShard key)).stamp := by
      intro c' hreturns
      obtain ⟨hfine, hlast⟩ := (multiGetReturns_ok hkeys hreturns).1 rfl
      rcases h with ⟨key, hkey, hfail⟩ | ⟨key, hkey, hmax, hnot⟩ | hall
      · exact absurd hfail (hfine key hkey)
      · exact absurd (hlast key hkey hmax) hnot
      · exact hall
    constructor
    · intro c' hreturns key hkey
      obtain ⟨hok, hlists⟩ := hfaithful c' hreturns key hkey
      have hfine := ((multiGetReturns_ok hkeys hreturns).1 rfl).1
      exact ⟨_, multiGetReturns_recorded hkeys hreturns hfine hkey hok, hlists⟩
    · rintro code c' hreturns ⟨key, hkey, hnot⟩ hcode
      subst hcode
      exact hnot (hfaithful c' hreturns key hkey).1

/-- A client of two shards. -/
def twoShards : ClientEnv := ⟨threeReplicas .fast 2, 7⟩

/-- Each shard replies with a version of its key. -/
def ownVersions (s : Shard) : Answer := .reply
  { tid := 7
    keys := [{ key := if s = 0 then "a" else "b", value := "x", timestamp := 5 + s }]
    replicaId := 0
    state := .ok }

/-- Both versions are recorded, and the call returns `REPLY_OK`. -/
theorem multiGet_records_iff_two :
    (multiGetReturns twoShards ownVersions ["a", "b"] {}).map Prod.fst = some replyOk ∧
      RecordsReads twoShards ownVersions ["a", "b"] {} := by
  have hkeys : ∀ key ∈ ["a", "b"], twoShards.cfg.keyToShard key < twoShards.cfg.nshards := by decide
  have hfaithful : Faithful twoShards ownVersions ["a", "b"] := .inr (.inr (by decide))
  exact ⟨rfl, (multiGet_records_iff hkeys).2 hfaithful⟩

/-- A reply with the versions `5` and `7` of the keys `b` and `c`, which share a shard. -/
def mixedVersions : Answer := .reply
  { tid := 7
    keys := [{ key := "b", value := "x", timestamp := 5 },
      { key := "c", value := "y", timestamp := 7 }]
    replicaId := 0
    state := .ok }

/-- **The slips.** The key `c` is recorded at the version of `b`; and a timeout of shard `0` is
hidden by the answer of shard `1`. -/
theorem multiGet_misrecords :
    ¬ RecordsReads twoShards (fun _ => mixedVersions) ["b", "c"] {} ∧
    ¬ RecordsReads twoShards (fun s => if s = 0 then .timeout else mixedVersions) ["a", "b"] {} := by
  constructor
  · intro h
    obtain ⟨t, ht, hlists⟩ := h.recorded _ rfl "c" (by decide)
    have heq : t = ⟨5, 0⟩ := (Option.some.inj ht).symm
    subst heq
    revert hlists
    decide
  · intro h
    exact h.reported replyOk _ rfl ⟨"a", by decide, by decide⟩ rfl

end Client

end D2PC

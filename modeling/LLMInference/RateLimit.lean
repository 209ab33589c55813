import LLMInference.Config

/-!
The per-user token bucket (`app/ratelimit.py`), in its in-process form. A check is one
step; `now` is the reading of the limiter's clock.
-/

namespace LLMInference

structure TokenBucketLimiter where
  capacity : ℚ := 20
  refillPerSecond : ℚ := 5
  /-- Tokens remaining and the time of the last refill, of the users seen so far. -/
  buckets : String → Option (ℚ × ℚ) := fun _ => none

namespace TokenBucketLimiter

/-- `_current`. -/
def current (l : TokenBucketLimiter) (userId : String) (now : ℚ) : ℚ :=
  let (tokens, last) := (l.buckets userId).getD (l.capacity, now)
  min l.capacity (tokens + max 0 (now - last) * l.refillPerSecond)

def setBucket (l : TokenBucketLimiter) (userId : String) (tokens now : ℚ) : TokenBucketLimiter :=
  { l with buckets := Function.update l.buckets userId (some (tokens, now)) }

/-- The `retry_after_s` of a refusal; `none` is infinity. -/
def retryAfterS (l : TokenBucketLimiter) (deficit : ℚ) : Option ℚ :=
  if 0 < l.refillPerSecond then some (deficit / l.refillPerSecond) else none

/-- Consume `cost` tokens, or refuse with the time to wait. -/
def check (l : TokenBucketLimiter) (userId : String) (now cost : ℚ) :
    Except (Option ℚ) Unit × TokenBucketLimiter :=
  let available := l.current userId now
  if available < cost then
    (.error (l.retryAfterS (cost - available)), l.setBucket userId available now)
  else (.ok (), l.setBucket userId (available - cost) now)

end TokenBucketLimiter

end LLMInference

/-! Monotonic time as the protocol cores read it: every operation is given the instant at
which the host calls it.
-/

namespace Zay

/-- `std::time::Instant`, in nanoseconds since an arbitrary origin. -/
abbrev Instant := Nat

/-- `std::time::Duration`, in nanoseconds. -/
abbrev Duration := Nat

/-- `Instant::duration_since`, which is zero when `earlier` lies in the future. -/
def Instant.durationSince (now earlier : Instant) : Duration := now - earlier

end Zay

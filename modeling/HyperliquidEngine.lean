import HyperliquidEngine.Types
import HyperliquidEngine.Order
import HyperliquidEngine.Mempool
import HyperliquidEngine.FlatMap
import HyperliquidEngine.PriceLevels
import HyperliquidEngine.PriceLevelsArray
import HyperliquidEngine.PriceLevelsAVL
import HyperliquidEngine.OrderBook
import HyperliquidEngine.Matching
import HyperliquidEngine.Engine
import HyperliquidEngine.Conservation
import HyperliquidEngine.Events
import HyperliquidEngine.BestPrice
import HyperliquidEngine.Index
import HyperliquidEngine.Load
import HyperliquidEngine.FiniteMap
import HyperliquidEngine.Nodes
import HyperliquidEngine.Uncrossed
import HyperliquidEngine.SpscQueue
import HyperliquidEngine.Agreement
import HyperliquidEngine.Priority
import HyperliquidEngine.RoundTrip
import HyperliquidEngine.Prices
import HyperliquidEngine.Totals
import HyperliquidEngine.Fok
import HyperliquidEngine.LinkedLevel
import HyperliquidEngine.NodeMemory
import HyperliquidEngine.NodeBook
import HyperliquidEngine.Json
import HyperliquidEngine.Pipeline
import HyperliquidEngine.PipelineRings
import HyperliquidEngine.Latency
import HyperliquidEngine.Sparse
import HyperliquidEngine.CommandLine
